/-
Module: SmlRs.Lib.Merge
Purpose: Lists that are merged from two, and the lists that belong to their items.
Trusted boundary: none
Main exports: marked_items, forall_marked, flatMap_last, flatMap_last_unmarked
-/
import Mathlib.Data.List.Basic

namespace SmlRs.Lib

variable {α β : Type} (lists : α → List β)

/-- The last item has all there is in the lists of some items. -/
theorem flatMap_last {items : List α} :
    items.flatMap lists = (items.getLast?.map lists).getD [] ↔
      ∀ item ∈ items.dropLast, lists item = [] := by
  rcases List.eq_nil_or_concat items with rfl | ⟨front, last, rfl⟩
  · simp
  · have ends : ((front.concat last).getLast?.map lists).getD [] = lists last := by
      simp
    rw [ends, List.concat_eq_append, List.flatMap_append, List.dropLast_concat]
    simp

/-- Some items among others: those that are marked, and those that are not. -/
def marked_items (items : List (α × Bool)) (mark : Bool) : List α :=
  (items.filter fun item => item.2 = mark).map (·.1)

theorem marked_filter (items : List (α × Bool)) (mark : Bool) (kept : α → Bool) :
    (marked_items items mark).filter kept =
      marked_items (items.filter fun item => kept item.1) mark := by
  unfold marked_items
  rw [List.filter_map, List.filter_filter, List.filter_filter]
  congr 1
  apply List.filter_congr
  intro item _
  exact Bool.and_comm _ _

theorem forall_marked {items : List (α × Bool)} {holds : α → Prop} :
    (∀ item ∈ items, holds item.1) ↔
      (∀ item ∈ marked_items items false, holds item) ∧
        ∀ item ∈ marked_items items true, holds item := by
  unfold marked_items
  simp only [List.mem_map, List.mem_filter, decide_eq_true_eq]
  constructor
  · intro all
    constructor
    · rintro _ ⟨item, ⟨among, _⟩, rfl⟩
      exact all item among
    · rintro _ ⟨item, ⟨among, _⟩, rfl⟩
      exact all item among
  · rintro ⟨unmarked, marked⟩ ⟨one, mark⟩ among
    cases mark with
    | true => exact marked one ⟨_, ⟨among, rfl⟩, rfl⟩
    | false => exact unmarked one ⟨_, ⟨among, rfl⟩, rfl⟩

theorem flatMap_unmarked {items : List (α × Bool)}
    (empty : ∀ item ∈ marked_items items true, lists item = []) :
    items.flatMap (fun item => lists item.1) =
      (marked_items items false).flatMap lists := by
  induction items with
  | nil => rfl
  | cons item rest ih =>
    obtain ⟨one, mark⟩ := item
    cases mark with
    | true =>
      have none_here : lists one = [] := empty one (by simp [marked_items])
      have further := ih fun other among =>
        empty other (List.mem_cons_of_mem one among)
      rw [List.flatMap_cons, none_here, List.nil_append, further]
      rfl
    | false =>
      have further := ih empty
      rw [List.flatMap_cons, further]
      rfl

theorem length_marked (items : List (α × Bool)) :
    (items.flatMap fun item => lists item.1).length =
      ((marked_items items false).flatMap lists).length +
        ((marked_items items true).flatMap lists).length := by
  induction items with
  | nil => rfl
  | cons item rest ih =>
    obtain ⟨one, mark⟩ := item
    cases mark with
    | true =>
      have split : marked_items ((one, true) :: rest) true =
          one :: marked_items rest true := rfl
      have same : marked_items ((one, true) :: rest) false =
          marked_items rest false := rfl
      rw [split, same, List.flatMap_cons, List.flatMap_cons, List.length_append,
        List.length_append, ih]
      dsimp only
      omega
    | false =>
      have split : marked_items ((one, false) :: rest) false =
          one :: marked_items rest false := rfl
      have same : marked_items ((one, false) :: rest) true =
          marked_items rest true := rfl
      rw [split, same, List.flatMap_cons, List.flatMap_cons, List.length_append,
        List.length_append, ih]
      dsimp only
      omega

/-- The last unmarked item has all there is. -/
theorem flatMap_last_unmarked {items : List (α × Bool)} :
    items.flatMap (fun item => lists item.1) =
        ((marked_items items false).getLast?.map lists).getD [] ↔
      (∀ item ∈ (marked_items items false).dropLast, lists item = []) ∧
        ∀ item ∈ marked_items items true, lists item = [] := by
  constructor
  · intro all
    have lengths := length_marked lists items
    rw [all] at lengths
    have shorter : (((marked_items items false).getLast?.map lists).getD []).length ≤
        ((marked_items items false).flatMap lists).length := by
      rcases List.eq_nil_or_concat (marked_items items false) with
        none_there | ⟨front, last, split⟩
      · simp [none_there]
      · simp [split]
    have unmarked_empty :
        ((marked_items items true).flatMap lists).length = 0 := by omega
    have empty : ∀ item ∈ marked_items items true, lists item = [] :=
      List.flatMap_eq_nil_iff.mp (List.length_eq_zero_iff.mp unmarked_empty)
    refine ⟨?_, empty⟩
    rw [flatMap_unmarked lists empty] at all
    exact (flatMap_last lists).mp all
  · rintro ⟨front, empty⟩
    rw [flatMap_unmarked lists empty]
    exact (flatMap_last lists).mpr front

end SmlRs.Lib
