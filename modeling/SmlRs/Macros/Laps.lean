/-
Module: SmlRs.Macros.Laps
Purpose: The passes of the loop of `stabilize`, one after the other.
Trusted boundary: none
Main exports: Loop, Rescue, Lap, Lap.loops, lap_or_end, stabilize_loop_laps
-/
import SmlRs.Lib.Trace
import SmlRs.Macros.Contract

namespace SmlRs.Macros

open Lib

variable {E : Environment}

/-! ### Passes -/

/-- The core and the locals of `stabilize` between two passes of its loop. -/
structure Loop (E : Environment) where
  core : Core E
  origin : Option (Event E)
  settled : Nat → Bool

/-- A completion fault that exception rows have handled: the slot whose
completions failed, the number of the walk, and what happened in it. -/
structure Rescue (E : Environment) where
  place : Slot
  serial : Nat
  record : List (Happening E)

/-- One pass behind which the loop goes on: a completion row has run, or a fault
was recovered. -/
inductive Tables.Lap (tree : Tables E) (calls : Calls E) :
    Loop E → Option (Rescue E) → Loop E → Prop where
  | completed {core core' : Core E} {origin : Option (Event E)}
      {settled : Nat → Bool}
      (ran : tree.completion_step calls origin settled core = .ok true core') :
      Lap tree calls ⟨core, origin, settled⟩ none ⟨core', origin, settled⟩
  | recovered {core mid last : Core E} {origin : Option (Event E)}
      {settled : Nat → Bool} {place : Slot} {fault : Fault E} {error : E.Data}
      {walk : Tables.Recovery} {moved : Bool} (placed : tree.Placed place)
      (failed : tree.completion_step calls origin settled core =
        .error (tree.site place, fault) mid)
      (raised : fault.error = some error)
      (handlers : tree.has_exception_handlers = true)
      (walked : tree.recover_walk calls error (tree.site place) mid =
        .ok walk last)
      (handled : walk.recovery = some moved)
      (goes : tree.track_settle_sites = true ∨ moved = true) :
      Lap tree calls ⟨core, origin, settled⟩
        (some ⟨place, mid.serial, news mid last⟩)
        ⟨last.note (.recovered moved), if moved then none else origin,
          if tree.track_settle_sites then
            Tables.settle settled walk.exited (tree.site place) moved
          else settled⟩

/-- The rest of the loop. -/
def Loop.rest (loop : Loop E) (tree : Tables E) (calls : Calls E) (fuel : Nat) :
    EStateM.Result (Fault E) (Core E) (Option (Event E)) :=
  tree.stabilize_loop calls fuel loop.origin loop.settled loop.core

namespace Tables.Lap

variable {tree : Tables E} {calls : Calls E} {loop next : Loop E}
  {label : Option (Rescue E)}

/-- Behind a pass the loop goes on. -/
theorem loops (lap : tree.Lap calls loop label next) (fuel : Nat) :
    loop.rest tree calls (fuel + 1) = next.rest tree calls fuel := by
  unfold Loop.rest
  conv_lhs => unfold Tables.stabilize_loop
  rw [bind_run]
  cases lap with
  | completed ran =>
    unfold attempt
    rw [ran]
  | @recovered _ _ last _ _ _ _ _ walk moved _ failed raised handlers walked
      handled goes =>
    conv_lhs => unfold attempt
    rw [failed]
    simp only [raised, handlers, Bool.not_true, Bool.false_eq_true, if_false]
    rw [bind_run, walked]
    simp only [handled]
    show (if tree.track_settle_sites = true then _ else _ :
      Effect E (Option (Event E))) (last.note (.recovered moved)) = _
    cases tracked : tree.track_settle_sites with
    | true => rfl
    | false =>
      have onward : moved = true := by simpa [tracked] using goes
      subst onward
      rfl

end Tables.Lap

/-! ### Where completion steps fail -/

/-- A completion step fails in a slot of the tree whose site is not settled. -/
def Tables.Open (tree : Tables E) (settled : Nat → Bool)
    (failure : Nat × Fault E) : Prop :=
  ∃ place, tree.Placed place ∧ failure.1 = tree.site place ∧
    tree.is_settled settled place = false

variable {tree : Tree E} {calls : Calls E}

theorem completion_step_open (origin : Option (Event E))
    (settled : Nat → Bool) :
    Raises (tree.Open settled)
      (tree.completion_step calls origin settled) := by
  apply Raises.foldlM
  intro handled node among
  apply Raises.reads
  intro core
  split
  · exact Raises.returns handled
  apply Raises.foldlM
  intro progressed place inside
  have placed := tree.placed_of_walk among inside
  refine Raises.seq ?_ fun value => Raises.returns (progressed || value)
  unfold Tables.completion_site
  split
  · exact Raises.returns false
  · rename_i unsettled
    apply Triple.tagged
    intro core _
    have fresh : tree.is_settled settled place = false := by
      simpa using unsettled
    cases tree.completion_code calls place origin core with
    | ok value core' => trivial
    | error fault core' => exact ⟨place, placed, rfl, fresh⟩

/-! ### Every run of the loop -/

/-- The loop goes on with a pass, or it ends whatever its fuel. -/
theorem lap_or_end (loop : Loop E) :
    (∃ label next, tree.Lap calls loop label next) ∨
      ∀ fuel fuel', loop.rest tree.toTables calls (fuel + 1) =
        loop.rest tree.toTables calls (fuel' + 1) := by
  obtain ⟨core, origin, settled⟩ := loop
  unfold Loop.rest Tables.stabilize_loop
  simp only [bind_run]
  unfold attempt
  cases failed : tree.completion_step calls origin settled core with
  | ok handled core' =>
    cases handled with
    | true => exact .inl ⟨none, _, .completed failed⟩
    | false => exact .inr fun _ _ => rfl
  | error failure mid =>
    obtain ⟨place, placed, site, _⟩ :=
      Triple.error (completion_step_open origin settled) trivial failed
    obtain ⟨_, fault⟩ := failure
    dsimp only at site ⊢
    subst site
    cases raised : fault.error with
    | none => exact .inr fun _ _ => rfl
    | some error =>
      cases handlers : tree.has_exception_handlers with
      | false => exact .inr fun _ _ => rfl
      | true =>
        simp only [Bool.not_true, Bool.false_eq_true, if_false, bind_run]
        cases walked : tree.recover_walk calls error (tree.site place) mid with
        | error fault' last => exact .inr fun _ _ => rfl
        | ok walk last =>
          dsimp only
          cases handled : walk.recovery with
          | none => exact .inr fun _ _ => rfl
          | some moved =>
            by_cases goes : tree.track_settle_sites = true ∨ moved = true
            · exact .inl ⟨_, _, .recovered placed failed raised handlers walked
                handled goes⟩
            · right
              simp only [not_or, Bool.not_eq_true] at goes
              simp only [goes.1, goes.2]
              exact fun _ _ => rfl

/-- Every run of the loop is a run of passes, until it ends in one that is none
or its fuel is used up. -/
theorem stabilize_loop_laps (fuel : Nat) (loop : Loop E) :
    ∃ labels last left, Trace (tree.Lap calls) loop labels last ∧
      labels.length + left = fuel ∧
      loop.rest tree.toTables calls fuel = last.rest tree.toTables calls left ∧
      (left = 0 ∨ ∀ more, last.rest tree.toTables calls left =
        last.rest tree.toTables calls (more + 1)) := by
  induction fuel generalizing loop with
  | zero => exact ⟨[], loop, 0, .nil, rfl, rfl, .inl rfl⟩
  | succ fuel ih =>
    rcases @lap_or_end _ tree calls loop with further | ends
    · obtain ⟨label, next, lap⟩ := further
      obtain ⟨labels, last, left, laps, count, same, stops⟩ := ih next
      refine ⟨label :: labels, last, left, .cons lap laps, ?_, ?_, stops⟩
      · simp only [List.length_cons]
        omega
      · exact (lap.loops fuel).trans same
    · exact ⟨[], loop, fuel + 1, .nil, by simp, rfl, .inr (ends fuel)⟩

end SmlRs.Macros
