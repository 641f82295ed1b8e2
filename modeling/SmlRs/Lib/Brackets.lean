/-
Module: SmlRs.Lib.Brackets
Purpose: Lists that are cut at separators outside of brackets, where brackets are
  counted by a number that does not fall below zero.
Trusted boundary: none
Main exports: Mark, depth_after, pieces, loose, joined, pieces_joined_iff,
  loose_eq_zero_iff
-/
import Mathlib.Algebra.GroupWithZero.Nat

namespace SmlRs.Lib

variable {α : Type*}

/-- What an item is to the counter. -/
inductive Mark where
  | opens
  | closes
  | separates
  | other
deriving DecidableEq

def Mark.after (depth : Nat) : Mark → Nat
  | opens => depth + 1
  | closes => depth - 1
  | separates | other => depth

/-- The counter behind some items. -/
def depth_after (depth : Nat) (items : List (Mark × α)) : Nat :=
  items.foldl (fun depth item => item.1.after depth) depth

/-- The items are cut at the separators where the counter is zero, and empty pieces
are dropped. -/
def pieces : List (Mark × α) → Nat → List α → List (List α)
  | [], _, current => if current.isEmpty then [] else [current]
  | (mark, item) :: rest, depth, current =>
      if mark = .separates ∧ depth = 0 then
        if current.isEmpty then pieces rest 0 [] else current :: pieces rest 0 []
      else pieces rest (mark.after depth) (current ++ [item])

/-- How many separators there are where the counter is zero. -/
def loose : List (Mark × α) → Nat → Nat
  | [], _ => 0
  | (mark, _) :: rest, depth =>
      (if mark = .separates ∧ depth = 0 then 1 else 0) + loose rest (mark.after depth)

/-- Blocks with a separator behind each of them, or between them. -/
def joined (separator : α) (trailing : Bool) : List (List α) → List α
  | [] => []
  | [block] => block ++ if trailing then [separator] else []
  | block :: rest => block ++ separator :: joined separator trailing rest

section Pieces

variable {front back items block : List (Mark × α)} {depth : Nat}
  {current : List α} {item : α}

theorem depth_after_cons {mark : Mark} :
    depth_after depth ((mark, item) :: items) =
      depth_after (mark.after depth) items := rfl

/-- A separator where the counter is zero cuts off what is in front of it. -/
theorem pieces_append (settled : depth_after depth front = 0) :
    pieces (front ++ (.separates, item) :: back) depth current =
      pieces front depth current ++ pieces back 0 [] := by
  induction front generalizing depth current with
  | nil =>
    have zero : depth = 0 := settled
    subst zero
    cases current with
    | nil => rfl
    | cons head tail => rfl
  | cons entry rest ih =>
    obtain ⟨mark, value⟩ := entry
    rw [depth_after_cons] at settled
    rw [List.cons_append, pieces, pieces]
    by_cases cut : mark = .separates ∧ depth = 0
    · rw [if_pos cut, if_pos cut]
      obtain ⟨rfl, rfl⟩ := cut
      have further := @ih 0 [] settled
      cases current with
      | nil => exact further
      | cons head tail => exact congrArg (List.cons (head :: tail)) further
    · rw [if_neg cut, if_neg cut]
      exact ih settled

/-- A separator that cuts is in no piece. -/
theorem pieces_length :
    (pieces items depth current).flatten.length + loose items depth =
      current.length + items.length := by
  induction items generalizing depth current with
  | nil =>
    unfold pieces loose
    cases current <;> simp
  | cons entry rest ih =>
    obtain ⟨mark, value⟩ := entry
    rw [pieces, loose]
    by_cases cut : mark = .separates ∧ depth = 0
    · rw [if_pos cut, if_pos cut]
      obtain ⟨rfl, rfl⟩ := cut
      have further := @ih 0 []
      cases current with
      | nil =>
        simp only [List.isEmpty_nil, if_true, List.length_nil, List.length_cons,
          Mark.after] at further ⊢
        omega
      | cons head tail =>
        simp only [List.isEmpty_cons, Bool.false_eq_true, if_false, List.flatten_cons,
          List.length_append, List.length_nil, List.length_cons,
          Mark.after] at further ⊢
        omega
    · rw [if_neg cut, if_neg cut]
      have further := @ih (mark.after depth) (current ++ [value])
      simp only [List.length_append, List.length_cons, List.length_nil] at further ⊢
      omega

/-- Without a separator that cuts there is one piece. -/
theorem pieces_of_tight (tight : loose items depth = 0)
    (some : current ++ items.map Prod.snd ≠ []) :
    pieces items depth current = [current ++ items.map Prod.snd] := by
  induction items generalizing depth current with
  | nil =>
    rw [List.map_nil, List.append_nil] at some ⊢
    rw [pieces, if_neg (by simpa using some)]
  | cons entry rest ih =>
    obtain ⟨mark, value⟩ := entry
    rw [loose] at tight
    by_cases cut : mark = .separates ∧ depth = 0
    · rw [if_pos cut] at tight
      omega
    · rw [if_neg cut, Nat.zero_add] at tight
      rw [pieces, if_neg cut, ih tight (by simp), List.append_assoc]
      rfl

variable {separator : α} {trailing : Bool} {blocks : List (List (Mark × α))}

/-- Blocks that leave the counter at zero are cut one by one. -/
theorem pieces_joined (settled : ∀ block ∈ blocks, depth_after 0 block = 0) :
    pieces (joined (.separates, separator) trailing blocks) 0 [] =
      blocks.flatMap fun block => pieces block 0 [] := by
  induction blocks with
  | nil => rfl
  | cons block rest ih =>
    have own := settled block List.mem_cons_self
    cases rest with
    | nil =>
      rw [joined, List.flatMap_singleton]
      cases trailing with
      | false => rw [if_neg Bool.false_ne_true, List.append_nil]
      | true =>
        rw [if_pos rfl, pieces_append own]
        exact List.append_nil _
    | cons next others =>
      have further := ih fun other among =>
        settled other (List.mem_cons_of_mem _ among)
      rw [List.flatMap_cons, ← further]
      exact pieces_append own

theorem pieces_flatMap_length (blocks : List (List (Mark × α))) :
    ((blocks.flatMap fun block => pieces block 0 []).flatten).length +
        (blocks.map fun block => loose block 0).sum =
      ((blocks.map (List.map Prod.snd)).flatten).length := by
  induction blocks with
  | nil => rfl
  | cons block rest ih =>
    have own := @pieces_length α block 0 []
    simp only [List.flatMap_cons, List.flatten_append, List.length_append,
      List.map_cons, List.sum_cons, List.flatten_cons, List.length_map,
      List.length_nil, Nat.zero_add] at own ih ⊢
    omega

/-- The pieces are the blocks exactly when no separator in a block cuts. -/
theorem pieces_joined_iff (settled : ∀ block ∈ blocks, depth_after 0 block = 0)
    (some : ∀ block ∈ blocks, block ≠ []) :
    pieces (joined (.separates, separator) trailing blocks) 0 [] =
        blocks.map (List.map Prod.snd) ↔
      ∀ block ∈ blocks, loose block 0 = 0 := by
  rw [pieces_joined settled]
  constructor
  · intro same
    have counted := pieces_flatMap_length blocks
    rw [same] at counted
    have none_loose : (blocks.map fun block => loose block 0).sum = 0 := by omega
    intro block among
    exact List.sum_eq_zero_iff_forall_eq_nat.mp none_loose _
      (List.mem_map_of_mem among)
  · intro tight
    clear settled
    induction blocks with
    | nil => rfl
    | cons block rest ih =>
      rw [List.flatMap_cons, List.map_cons,
        ih (fun other among => some other (List.mem_cons_of_mem _ among))
          fun other among => tight other (List.mem_cons_of_mem _ among),
        pieces_of_tight (tight block List.mem_cons_self)]
      · rfl
      · simpa using some block List.mem_cons_self

end Pieces

/-! ### Where the counter is above zero -/

section Depth

variable {items : List (Mark × α)} {depth : Nat}

/-- How many items have a mark. -/
def count_of (mark : Mark) (items : List (Mark × α)) : Nat :=
  items.countP (·.1 = mark)

/-- The items end with a stretch in which more is opened than closed. -/
def EndsOpen (items : List (Mark × α)) : Prop :=
  ∃ outer inner, items = outer ++ inner ∧
    count_of .closes inner < count_of .opens inner

theorem count_of_cons (mark own : Mark) (item : α) :
    count_of mark ((own, item) :: items) =
      count_of mark items + if own = mark then 1 else 0 := by
  unfold count_of
  rw [List.countP_cons]
  by_cases same : own = mark
  · rw [if_pos same, if_pos (decide_eq_true same)]
  · rw [if_neg same, if_neg fun held => same (of_decide_eq_true held)]

theorem EndsOpen.of_count (more : count_of .closes items < count_of .opens items) :
    EndsOpen items :=
  ⟨[], items, rfl, more⟩

theorem not_endsOpen_nil : ¬ EndsOpen ([] : List (Mark × α)) := by
  intro ⟨outer, inner, whole, more⟩
  obtain ⟨-, rfl⟩ := List.append_eq_nil_iff.mp whole.symm
  exact Nat.lt_irrefl _ more

theorem endsOpen_cons_iff {entry : Mark × α} :
    EndsOpen (entry :: items) ↔
      count_of .closes (entry :: items) < count_of .opens (entry :: items) ∨
        EndsOpen items := by
  constructor
  · intro ⟨outer, inner, whole, more⟩
    cases outer with
    | nil =>
      rw [List.nil_append] at whole
      exact Or.inl (whole ▸ more)
    | cons head tail =>
      rw [List.cons_append] at whole
      exact Or.inr ⟨tail, inner, (List.cons.inj whole).2, more⟩
  · intro either
    rcases either with more | ⟨outer, inner, whole, more⟩
    · exact EndsOpen.of_count more
    · exact ⟨entry :: outer, inner, congrArg (List.cons entry) whole, more⟩

/-- The counter is above zero when more is opened than closed, counted from its
start or from an item further on. -/
theorem depth_after_pos_iff :
    0 < depth_after depth items ↔
      count_of .closes items < depth + count_of .opens items ∨ EndsOpen items := by
  induction items generalizing depth with
  | nil =>
    change 0 < depth ↔ 0 < depth + 0 ∨ _
    constructor
    · exact Or.inl
    · intro either
      exact either.resolve_right not_endsOpen_nil
  | cons entry rest ih =>
    obtain ⟨mark, item⟩ := entry
    have nested : count_of .closes rest < count_of .opens rest → EndsOpen rest :=
      EndsOpen.of_count
    rw [depth_after_cons, ih, endsOpen_cons_iff]
    simp only [count_of_cons]
    cases mark with
    | opens =>
      simp only [Mark.after, reduceCtorEq, if_true, if_false]
      grind
    | closes =>
      simp only [Mark.after, reduceCtorEq, if_true, if_false]
      grind
    | separates =>
      simp only [Mark.after, reduceCtorEq, if_false]
      grind
    | other =>
      simp only [Mark.after, reduceCtorEq, if_false]
      grind

theorem loose_eq_zero_iff_depth :
    loose items depth = 0 ↔
      ∀ front item back, items = front ++ (.separates, item) :: back →
        0 < depth_after depth front := by
  induction items generalizing depth with
  | nil =>
    constructor
    · intro _ front item back whole
      exact absurd whole.symm (List.append_ne_nil_of_right_ne_nil _ (List.cons_ne_nil _ _))
    · intro _
      rfl
  | cons entry rest ih =>
    obtain ⟨mark, value⟩ := entry
    rw [loose, Nat.add_eq_zero_iff, ih]
    constructor
    · intro ⟨here, further⟩ front item back whole
      cases front with
      | nil =>
        obtain ⟨rfl, -⟩ := Prod.mk.inj (List.cons.inj whole).1
        apply Nat.pos_of_ne_zero
        intro zero
        rw [if_pos ⟨rfl, zero⟩] at here
        exact Nat.one_ne_zero here
      | cons head tail =>
        rw [List.cons_append] at whole
        obtain ⟨rfl, later⟩ := List.cons.inj whole
        exact further tail item back later
    · intro inside
      constructor
      · apply if_neg
        intro ⟨separates, zero⟩
        subst separates
        exact Nat.lt_irrefl 0 (zero ▸ inside [] value rest rfl)
      · intro front item back whole
        exact inside ((mark, value) :: front) item back (congrArg (List.cons _) whole)

/-- No separator cuts when each of them stands behind a stretch in which more is
opened than closed. -/
theorem loose_eq_zero_iff :
    loose items 0 = 0 ↔
      ∀ front item back, items = front ++ (.separates, item) :: back →
        EndsOpen front := by
  rw [loose_eq_zero_iff_depth]
  constructor
  · intro inside front item back whole
    rcases depth_after_pos_iff.mp (inside front item back whole) with more | ends
    · rw [Nat.zero_add] at more
      exact EndsOpen.of_count more
    · exact ends
  · intro inside front item back whole
    exact depth_after_pos_iff.mpr (Or.inr (inside front item back whole))

end Depth

end SmlRs.Lib
