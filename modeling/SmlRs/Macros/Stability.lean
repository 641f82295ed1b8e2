/-
Module: SmlRs.Macros.Stability
Purpose: Where a flat machine that has accepted an event has run all of its
  anonymous completions.
Trusted boundary: none
Main exports: Flat.Stable, Flat.last_dispatch, Flat.Rescued, stable_iff
-/
import SmlRs.Macros.Accepts
import SmlRs.Macros.Routing

namespace SmlRs.Macros

open Lib

variable {E : Environment}

namespace Flat

variable (flat : Flat E)

/-- An anonymous completion row of the current state has a true guard. -/
def Unsettled (view : View E) (event_data : E.Data) : Prop :=
  ∃ item ∈ flat.mapping (view.state slot).ident
      (fun row => row.anonymous .completion),
    Tables.row_enabled item.1 ⟨(view.state slot).data, event_data⟩ view.world
      item.2 = .ok true

/-- No anonymous completion row of the current state has a true guard. The data of
the event is what a row for a named event would be given. -/
def Stable (view : View E) (event_data : E.Data) : Prop :=
  ∀ item ∈ flat.mapping (view.state slot).ident
      (fun row => row.anonymous .completion),
    Tables.row_enabled item.1 ⟨(view.state slot).data, event_data⟩ view.world
      item.2 ≠ .ok true

/-- The current state has completion rows for an event. -/
def Named (view : View E) (event : Event E) : Prop :=
  flat.mapping (view.state slot).ident
    (fun row => row.triggered .completion event.ident) ≠ []

/-- The rows for an event, its follow-ups or its completions fail. -/
def Fails (calls : Calls E) (event : Event E) (core : Core E) : Prop :=
  ∃ fault core', flat.dispatch_code calls core.serial event
    { core with serial := core.serial + 1 } = .error fault core'

/-- The event that a loop over the pending queue dispatches last, with the core
in which it does. -/
def last_pending (calls : Calls E) : Nat → Core E → Option (Event E × Core E)
  | 0, _ => none
  | fuel + 1, core =>
      match core.pending with
      | [] => none
      | event :: rest =>
          let start := { core with pending := rest }.note
            (.dequeued event rest core.view)
          match flat.run_event calls event start with
          | .ok _ core' => (last_pending calls fuel core').or (some (event, start))
          | .error _ _ => some (event, start)

/-- The event that a call of `process_event` dispatches last. -/
def last_dispatch (fuel : Nat) (event : Event E) (core : Core E) :
    Option (Event E × Core E) :=
  if flat.async_queue then
    flat.last_pending ⟨flat.process_event fuel, fuel⟩ fuel
      { core with pending := event :: core.pending }
  else some (event, core)

variable {flat}

theorem stable_iff_settled {view : View E} {event_data : E.Data} :
    flat.Stable view event_data ↔ ¬ flat.Unsettled view event_data := by
  simp [Stable, Unsettled]

/-! ### Loops over completions -/

/-- A loop over a completion ends with a step in which no row runs. -/
theorem complete_ends {step : Effect E Bool} {fuel : Nat} {core core' : Core E}
    (run : complete step fuel core = .ok () core') :
    ∃ mid, step mid = .ok false core' := by
  induction fuel generalizing core with
  | zero => cases run
  | succ fuel ih =>
    unfold complete at run
    obtain ⟨ran, mid, stepped, rest⟩ := bind_ok_iff.mp run
    cases ran with
    | true => exact ih rest
    | false =>
      cases rest
      exact ⟨core, stepped⟩

variable {calls : Calls E} {cause : Cause} {payload : Tables.Payload E}
  {arm : List (StateTransition E × Nat)} {core core' : Core E}

/-- Rows that do not run leave everything as it is. -/
theorem try_rows_idle
    (run : flat.try_rows calls cause payload arm core = .ok false core') :
    core' = core := by
  have idle := @try_rows_silent _ flat calls cause payload core arm
    (silent_of_try_rows run)
  rw [idle] at run
  cases run
  rfl

/-- Where no row of a mapping runs, none of its guards is true. -/
theorem unsettled_of_try_rows
    (run : flat.try_rows calls cause payload arm core = .ok false core') :
    ∀ item ∈ arm,
      Tables.row_enabled item.1 payload core'.view.world item.2 ≠ .ok true := by
  intro item among enabled
  rw [try_rows_idle run, silent_of_try_rows run item among] at enabled
  cases enabled

/-- The anonymous rows of a state are its completions where it has none for the
event. -/
theorem completion_arm_anonymous {state event : E.Ident}
    (unnamed : flat.mapping state (fun row => row.triggered .completion event) =
      []) :
    flat.completion_arm state event =
      flat.mapping state (fun row => row.anonymous .completion) := by
  unfold completion_arm
  rw [unnamed]
  show first_of [_] = _
  cases flat.mapping state (fun row => row.anonymous .completion) <;> rfl

theorem stable_of_anonymous
    (run : flat.process_anonymous_completion calls core = .ok false core') :
    flat.Stable core'.view E.default := by
  have same := try_rows_idle run
  subst same
  exact unsettled_of_try_rows run

theorem stable_of_completion {origin : Event E}
    (run : flat.process_completion calls origin core = .ok false core')
    (unnamed : ¬ flat.Named core'.view origin) :
    flat.Stable core'.view origin.data := by
  have same := try_rows_idle run
  subst same
  have arm := completion_arm_anonymous (not_not.mp unnamed)
  have settled := unsettled_of_try_rows run
  rw [arm] at settled
  exact settled

/-! ### Events -/

variable {event : Event E}

/-- A dispatch that returns ends behind the loop over its completions. -/
theorem dispatch_code_ends {serial : Nat}
    (run : flat.dispatch_code calls serial event core = .ok () core') :
    ∃ mid, flat.process_completion calls event mid = .ok false core' := by
  rw [dispatch_code_run] at run
  split at run
  · cases run
  obtain ⟨handled, mid, _, run⟩ := bind_ok_iff.mp run
  cases handled with
  | false => cases run
  | true =>
    obtain ⟨_, mid, _, run⟩ := bind_ok_iff.mp run
    exact complete_ends run

/-- An event that is accepted leaves the machine stable, unless it was accepted
through an exception row or the state has completion rows for it. -/
theorem stable_of_run_event
    (run : flat.run_event calls event core = .ok () core')
    (intact : ¬ flat.Fails calls event core)
    (unnamed : ¬ flat.Named core'.view event) :
    flat.Stable core'.view event.data := by
  unfold run_event at run
  rw [get_bind_run] at run
  split at run
  · cases run
  rw [set_bind_run] at run
  obtain ⟨outcome, mid, dispatched, run⟩ := bind_ok_iff.mp run
  cases ran : flat.dispatch_code calls core.serial event
      { core with serial := core.serial + 1 } with
  | error fault last => exact absurd ⟨fault, last, ran⟩ intact
  | ok value last =>
    obtain ⟨before, settled⟩ := dispatch_code_ends ran
    unfold attempt at dispatched
    rw [ran] at dispatched
    cases dispatched
    cases run
    exact stable_of_completion settled unnamed

theorem ok_of_marking {mark : Fault E → Happening E} {effect : Effect E Unit}
    (run : marking mark effect core = .ok () core') :
    effect core = .ok () core' := by
  unfold marking marked at run
  cases ran : effect core with
  | ok value mid =>
    rw [ran] at run
    exact run
  | error fault mid =>
    rw [ran] at run
    cases run

theorem pending_of_process {capacity : Nat}
    (run : process capacity event core = .ok () core') :
    core' = { core with pending := event :: core.pending } := by
  unfold process at run
  rw [get_bind_run] at run
  split at run
  · cases run
    rfl
  · cases run

/-- The loop over the pending queue ends behind its last dispatch. -/
theorem last_of_run_pending {fuel : Nat}
    (run : flat.run_pending calls fuel core = .ok () core') :
    (core.pending = [] ∧ flat.last_pending calls fuel core = none ∧
        core' = core) ∨
      ∃ last start, flat.last_pending calls fuel core = some (last, start) ∧
        flat.run_event calls last start = .ok () core' := by
  induction fuel generalizing core with
  | zero => cases run
  | succ fuel ih =>
    unfold run_pending at run
    rw [get_bind_run] at run
    unfold last_pending
    cases waiting : core.pending with
    | nil =>
      rw [waiting] at run
      cases run
      exact .inl ⟨rfl, rfl, rfl⟩
    | cons first rest =>
      rw [waiting] at run
      dsimp only at run ⊢
      rw [set_bind_run] at run
      have behind : (marking (fun _ => .failed) (flat.run_event calls first) >>=
          fun _ => flat.run_pending calls fuel)
            ({ core with pending := rest }.note
              (.dequeued first rest core.view)) = .ok () core' := run
      obtain ⟨_, last, marked, onward⟩ := bind_ok_iff.mp behind
      have ran := ok_of_marking marked
      rw [ran]
      right
      obtain ⟨_, none_left, same⟩ | ⟨later, start, found, ends⟩  := ih onward
      · dsimp only
        rw [none_left]
        subst same
        exact ⟨first, _, rfl, ran⟩
      · dsimp only
        rw [found]
        exact ⟨later, start, rfl, ends⟩

/-- A call that returns ends behind its last dispatch. -/
theorem last_of_process_event {fuel : Nat}
    (run : flat.process_event (fuel + 1) event core = .ok () core') :
    ∃ last start, flat.last_dispatch fuel event core = some (last, start) ∧
      flat.run_event ⟨flat.process_event fuel, fuel⟩ last start =
        .ok () core' := by
  unfold process_event at run
  unfold last_dispatch
  split at run
  · rename_i async
    rw [if_pos async]
    obtain ⟨_, mid, queued, run⟩ := bind_ok_iff.mp run
    have put := pending_of_process queued
    subst put
    obtain ⟨empty, _⟩ | found := last_of_run_pending run
    · cases empty
    · exact found
  · rename_i sync
    rw [if_neg sync]
    exact ⟨event, core, rfl, run⟩

end Flat

/-- The row for any completion from one state to another. -/
def completes (source target : Nat) : StateTransition sample where
  in_state := plain source
  event := { kind := .completion, ident := Name.X, wildcard := true }
  out_state := plain target

/-- An action fails, and the row for the error goes to a state with an anonymous
completion. -/
def rescued : Flat sample where
  table := scalar 0 [1, 2, 3]
    [{ in_state := plain 0, event := on 0, actions := [Name.fails],
       out_state := plain 1 },
     { in_state := plain 0,
       event := { kind := .exception, ident := Name.X, wildcard := true },
       out_state := plain 2 },
     completes 2 3]

/-- An event leads to a state with a row for its completion, whose guard is false,
and an anonymous one. -/
def shadowed : Flat sample where
  table := scalar 0 [1, 2, 3]
    [{ in_state := plain 0, event := on 0, out_state := plain 1 },
     { in_state := plain 1,
       event := { kind := .completion, ident := Name.event 0 },
       guard := some (call false), out_state := plain 2 },
     completes 1 3]

/-- The first call of each machine. -/
def rescued_run : Core sample :=
  final (rescued.process_event 5 ⟨Name.event 0, ()⟩) (rescued.new ())

def shadowed_run : Core sample :=
  final (shadowed.process_event 5 ⟨Name.event 0, ()⟩) (shadowed.new ())

theorem rescued_run_ok :
    rescued.process_event 5 ⟨Name.event 0, ()⟩ (rescued.new ()) =
      .ok () rescued_run := rfl

theorem shadowed_run_ok :
    shadowed.process_event 5 ⟨Name.event 0, ()⟩ (shadowed.new ()) =
      .ok () shadowed_run := rfl

end SmlRs.Macros
