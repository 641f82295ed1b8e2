/-
Module: SmlRs.Lib.Indexed
Purpose: Updates of a list that name the element they change, and what such a
  sequence of updates depends on.
Trusted boundary: none
Main exports: own, update, updated, updated_getElem?, updated_congr,
  valid_length_congr
-/
import Mathlib.Algebra.BigOperators.Group.Finset.Piecewise
import Mathlib.Algebra.BigOperators.Group.Finset.Sigma

namespace SmlRs.Lib

variable {M E : Type*}

/-- The values of the updates for one index, in their order. -/
def own (index : Nat) (entries : List (Nat × E)) : List E :=
  (entries.filter fun entry => entry.1 = index).map (·.2)

/-- One update. An index that is out of range changes nothing. -/
def update (change : M → E → M) (elements : List M) (entry : Nat × E) : List M :=
  elements.modify entry.1 fun element => change element entry.2

def updated (change : M → E → M) (elements : List M)
    (entries : List (Nat × E)) : List M :=
  entries.foldl (update change) elements

section Own

variable {index : Nat} {entry : Nat × E} {entries : List (Nat × E)}

theorem own_cons_self (here : entry.1 = index) :
    own index (entry :: entries) = entry.2 :: own index entries := by
  unfold own
  rw [List.filter_cons_of_pos (by simpa using here), List.map_cons]

theorem own_cons_of_ne (differs : entry.1 ≠ index) :
    own index (entry :: entries) = own index entries := by
  unfold own
  rw [List.filter_cons_of_neg (by simpa using differs)]

theorem own_eq_nil (unnamed : ∀ entry ∈ entries, entry.1 ≠ index) :
    own index entries = [] := by
  unfold own
  rw [List.map_eq_nil_iff, List.filter_eq_nil_iff]
  intro entry among
  simpa using unnamed entry among

end Own

variable {change : M → E → M} {elements : List M} {entries others : List (Nat × E)}

/-- An element goes through the updates of its own and no others. -/
theorem updated_getElem? (index : Nat) :
    (updated change elements entries)[index]? =
      elements[index]?.map fun element => (own index entries).foldl change element := by
  induction entries generalizing elements with
  | nil => simp [updated, own]
  | cons entry rest ih =>
    have after : (updated change elements (entry :: rest))[index]? =
        (update change elements entry)[index]?.map
          fun element => (own index rest).foldl change element := ih
    rw [after]
    unfold update
    rw [List.getElem?_modify]
    by_cases here : entry.1 = index
    · rw [own_cons_self here]
      cases elements[index]? with
      | none => rfl
      | some element => simp [here]
    · rw [own_cons_of_ne here]
      simp [here]

/-- Two sequences of updates with the same updates of each element have the same
effect. -/
theorem updated_congr
    (same : ∀ index < elements.length, own index entries = own index others) :
    updated change elements entries = updated change elements others := by
  apply List.ext_getElem?
  intro index
  rw [updated_getElem?, updated_getElem?]
  by_cases inside : index < elements.length
  · rw [same index inside]
  · rw [List.getElem?_eq_none (Nat.le_of_not_lt inside)]
    rfl

/-- The updates in range are those of the elements together. -/
theorem valid_length (size : Nat) :
    (entries.filter fun entry => entry.1 < size).length =
      ∑ index ∈ Finset.range size, (own index entries).length := by
  induction entries with
  | nil => simp [own]
  | cons entry rest ih =>
    have each (index : Nat) : (own index (entry :: rest)).length =
        (own index rest).length + if entry.1 = index then 1 else 0 := by
      by_cases here : entry.1 = index
      · rw [own_cons_self here, if_pos here, List.length_cons]
      · rw [own_cons_of_ne here, if_neg here, Nat.add_zero]
    simp only [each, Finset.sum_add_distrib, Finset.sum_ite_eq, Finset.mem_range]
    rw [← ih]
    by_cases inside : entry.1 < size
    · simp [inside]
    · simp [inside]

theorem valid_length_congr {size : Nat}
    (same : ∀ index < size, own index entries = own index others) :
    (entries.filter fun entry => entry.1 < size).length =
      (others.filter fun entry => entry.1 < size).length := by
  rw [valid_length, valid_length]
  apply Finset.sum_congr rfl
  intro index among
  rw [same index (Finset.mem_range.mp among)]

end SmlRs.Lib
