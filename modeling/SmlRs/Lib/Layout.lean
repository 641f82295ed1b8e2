/-
Module: SmlRs.Lib.Layout
Purpose: Ranges of numbers that are given to items one behind the other.
Trusted boundary: none
Main exports: Range, place, place_spec, place_range, disjoint_of_nodup
-/
import Mathlib.Algebra.GroupWithZero.Nat
import Mathlib.Data.List.Nodup
import Mathlib.Data.List.Range
import Mathlib.Logic.Function.Basic

namespace SmlRs.Lib

variable {α β : Type*}

/-- The numbers from `start` on, without `finish`. -/
structure Range where
  start : Nat
  finish : Nat

def Range.values (range : Range) : List Nat :=
  List.range' range.start (range.finish - range.start)

/-- The numbers of an item that may have a range. -/
def values_of (ranges : α → Option Range) (item : α) : List Nat :=
  ((ranges item).map Range.values).getD []

/-- Lists that have no element twice in a row have none in common. -/
theorem disjoint_of_nodup {items : List α} {values : α → List β} {first second : α}
    (nodup : (items.flatMap values).Nodup) (among : first ∈ items)
    (also : second ∈ items) (differ : first ≠ second) :
    List.Disjoint (values first) (values second) := by
  have apart := (List.nodup_flatMap.mp nodup).2
  have symmetric : Std.Symm (Function.onFun List.Disjoint values) :=
    ⟨fun _ _ disjoint _ one other => disjoint other one⟩
  exact apart.forall among also differ

section Place

variable [DecidableEq α] {count : α → Nat} {items front back : List α} {item : α}
  {next : Nat} {ranges : α → Option Range}

/-- The next range is given to an item. -/
def place (count : α → Nat) (locals : Nat × (α → Option Range)) (item : α) :
    Nat × (α → Option Range) :=
  let finish := locals.1 + count item
  (finish, Function.update locals.2 item (some ⟨locals.1, finish⟩))

theorem place_next :
    (items.foldl (place count) (next, ranges)).1 = next + (items.map count).sum := by
  induction items generalizing next ranges with
  | nil => rfl
  | cons item rest ih =>
    rw [List.foldl_cons, List.map_cons, List.sum_cons]
    exact ih.trans (Nat.add_assoc _ _ _)

theorem place_other (outside : item ∉ items) :
    (items.foldl (place count) (next, ranges)).2 item = ranges item := by
  induction items generalizing next ranges with
  | nil => rfl
  | cons head rest ih =>
    rw [List.foldl_cons]
    have apart : item ≠ head := fun same => outside (same ▸ List.mem_cons_self)
    have behind : item ∉ rest := fun among => outside (List.mem_cons_of_mem _ among)
    exact (ih behind).trans (Function.update_of_ne apart _ _)

/-- An item has its range behind the ones in front of it. -/
theorem place_range (once : item ∉ back) :
    ((front ++ item :: back).foldl (place count) (next, ranges)).2 item =
      some ⟨next + (front.map count).sum,
        next + (front.map count).sum + count item⟩ := by
  rw [List.foldl_append, List.foldl_cons]
  have first : (front.foldl (place count) (next, ranges)).1 =
      next + (front.map count).sum := place_next
  generalize front.foldl (place count) (next, ranges) = locals at first
  rw [← first]
  exact (place_other once).trans (Function.update_self _ _ _)

/-- The ranges are one behind the other, without gaps. -/
theorem place_values (once : items.Nodup) :
    items.flatMap (values_of (items.foldl (place count) (next, ranges)).2) =
      List.range' next (items.map count).sum := by
  induction items using List.reverseRecOn with
  | nil => rfl
  | append_singleton front item ih =>
    obtain ⟨before, _, apart⟩ := List.nodup_append.mp once
    have outside : item ∉ front :=
      fun among => apart item among item List.mem_cons_self rfl
    have here : ((front ++ [item]).foldl (place count) (next, ranges)).2 item =
        some ⟨next + (front.map count).sum,
          next + (front.map count).sum + count item⟩ :=
      place_range List.not_mem_nil
    have others : ∀ other ∈ front,
        values_of ((front ++ [item]).foldl (place count) (next, ranges)).2 other =
          values_of (front.foldl (place count) (next, ranges)).2 other := by
      intro other among
      have differs : other ≠ item := fun same => outside (same ▸ among)
      unfold values_of
      rw [List.foldl_append, List.foldl_cons, List.foldl_nil]
      unfold place
      dsimp only
      rw [Function.update_of_ne differs]
    rw [List.flatMap_append, List.flatMap_congr others, ih before,
      List.flatMap_singleton, List.map_append, List.sum_append]
    have own :
        values_of ((front ++ [item]).foldl (place count) (next, ranges)).2 item =
          List.range' (next + (front.map count).sum) (count item) := by
      unfold values_of
      rw [here]
      unfold Range.values
      simp
    rw [own]
    simp

end Place

end SmlRs.Lib
