/-
Module: SmlRs.Lib.Frontier
Purpose: Searches that visit everything that can be reached, from a queue.
Trusted boundary: none
Main exports: Leads, Frontier, Frontier.visited_iff, unseen, unseen_visit,
  unseen_other
-/
import Mathlib.Data.Set.Insert
import Mathlib.Logic.Relation

namespace SmlRs.Lib

variable {α : Type}

/-- Steps to a next value lead from one value to another. -/
abbrev Leads (next : α → List α) : α → α → Prop :=
  Relation.ReflTransGen fun first second => second ∈ next first

/-- What is next of what is next is reached in both directions at once. -/
theorem leads_symm {next : α → List α}
    (mutual_next : ∀ {first second}, second ∈ next first → first ∈ next second)
    {first second : α} (leads : Leads next first second) :
    Leads next second first := by
  induction leads with
  | refl => exact .refl
  | tail _ step ih => exact .head (mutual_next step) ih

/-- A search under way: from where it began, what it has visited, and what waits in
its queue. -/
structure Frontier (next : α → List α) (starts : List α) (visited : Set α)
    (queue : List α) : Prop where
  began : ∀ start ∈ starts, start ∈ visited ∨ start ∈ queue
  visits : ∀ value ∈ visited, ∃ start ∈ starts, Leads next start value
  waits : ∀ value ∈ queue, ∃ start ∈ starts, Leads next start value
  closed : ∀ value ∈ visited, ∀ further ∈ next value,
    further ∈ visited ∨ further ∈ queue

namespace Frontier

variable {next : α → List α} {starts queue : List α} {visited : Set α} {value : α}

theorem start : Frontier next starts ∅ starts where
  began _ among := .inr among
  visits _ absent := absurd absent (Set.notMem_empty _)
  waits value among := ⟨value, among, .refl⟩
  closed _ absent := absurd absent (Set.notMem_empty _)

/-- What is visited already leaves the queue. -/
theorem skip (frontier : Frontier next starts visited (value :: queue))
    (seen : value ∈ visited) : Frontier next starts visited queue := by
  have later {other : α} (known : other ∈ visited ∨ other ∈ value :: queue) :
      other ∈ visited ∨ other ∈ queue := by
    rcases known with known | waiting
    · exact .inl known
    · rcases List.mem_cons.mp waiting with rfl | waiting
      · exact .inl seen
      · exact .inr waiting
  exact
    { began := fun start among => later (frontier.began start among)
      visits := frontier.visits
      waits := fun other among => frontier.waits other (List.mem_cons_of_mem _ among)
      closed := fun other known further step =>
        later (frontier.closed other known further step) }

/-- The first of the queue is visited, and what is next of it waits behind. -/
theorem visit (frontier : Frontier next starts visited (value :: queue)) :
    Frontier next starts (insert value visited) (queue ++ next value) := by
  have reached := frontier.waits value List.mem_cons_self
  have later {other : α} (known : other ∈ visited ∨ other ∈ value :: queue) :
      other ∈ insert value visited ∨ other ∈ queue ++ next value := by
    rcases known with known | waiting
    · exact .inl (.inr known)
    · rcases List.mem_cons.mp waiting with rfl | waiting
      · exact .inl (.inl rfl)
      · exact .inr (List.mem_append_left _ waiting)
  constructor
  · exact fun start among => later (frontier.began start among)
  · intro other known
    rcases known with rfl | known
    · exact reached
    · exact frontier.visits other known
  · intro other waiting
    rcases List.mem_append.mp waiting with waiting | step
    · exact frontier.waits other (List.mem_cons_of_mem _ waiting)
    · obtain ⟨start, among, leads⟩ := reached
      exact ⟨start, among, leads.tail step⟩
  · intro other known further step
    rcases known with rfl | known
    · exact .inr (List.mem_append_right _ step)
    · exact later (frontier.closed other known further step)

/-- Where nothing waits, what is visited is what can be reached. -/
theorem visited_iff (frontier : Frontier next starts visited []) :
    value ∈ visited ↔ ∃ start ∈ starts, Leads next start value := by
  constructor
  · exact frontier.visits value
  · intro reached
    obtain ⟨start, among, leads⟩ := reached
    induction leads with
    | refl => exact (frontier.began start among).resolve_right List.not_mem_nil
    | tail _ step ih =>
      exact (frontier.closed _ ih _ step).resolve_right List.not_mem_nil

end Frontier

/-! ### What is left to visit -/

section Unseen

variable [DecidableEq α]

/-- How many values of a list are not visited. -/
def unseen (values : List α) (visited : α → Bool) : Nat :=
  values.countP fun value => !visited value

/-- With each value of the list that is visited there is less left. -/
theorem unseen_visit {values : List α} {visited after : α → Bool} {value : α}
    (among : value ∈ values) (fresh : visited value = false)
    (visits : ∀ other, after other = (other = value || visited other)) :
    unseen values after < unseen values visited := by
  unfold unseen
  induction values with
  | nil => cases among
  | cons first rest ih =>
    have kept : rest.countP (fun value => !after value) ≤
        rest.countP fun value => !visited value := by
      apply List.countP_mono_left
      intro other _ left
      rw [visits] at left
      simp_all
    rw [List.countP_cons, List.countP_cons]
    by_cases here : first = value
    · subst here
      have seen : after first = true := by simp [visits]
      rw [seen, fresh]
      exact Nat.lt_succ_of_le kept
    · have behind := ih ((List.mem_cons.mp among).resolve_left (Ne.symm here))
      have same : after first = visited first := by simp [visits, here]
      rw [same]
      omega

/-- What is not of the list leaves as much. -/
theorem unseen_other {values : List α} {visited after : α → Bool} {value : α}
    (absent : value ∉ values)
    (visits : ∀ other, after other = (other = value || visited other)) :
    unseen values after = unseen values visited := by
  unfold unseen
  apply List.countP_congr
  intro other among
  have apart : other ≠ value := fun same => absent (same ▸ among)
  simp [visits, apart]

end Unseen

end SmlRs.Lib
