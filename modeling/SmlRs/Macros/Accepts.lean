/-
Module: SmlRs.Macros.Accepts
Purpose: For which events a machine has a row that it tries to run, and what a
  dispatch of any other event does.
Trusted boundary: none
Main exports: Idle, silent, accepts, dispatch_code_idle, parent_dispatch_idle,
  flat_dispatch_code_idle
-/
import SmlRs.Macros.Contract
import SmlRs.Macros.Flat
import SmlRs.Macros.Selection

namespace SmlRs.Macros

open Lib

variable {E : Environment}

/-! ### Nothing but turns -/

def Happening.is_turn : Happening E → Prop
  | .turn .. => True
  | _ => False

/-- Events have been counted, tables have had turns, and nothing has come of
it. -/
def Idle (core core' : Core E) : Prop :=
  ∃ counted added, core' = { core with
    serial := core.serial + counted
    trace := added ++ core.trace } ∧ ∀ happening ∈ added, happening.is_turn

section Idle

variable {core core' : Core E}

theorem Idle.refl : Idle core core :=
  ⟨0, [], rfl, by simp⟩

theorem Idle.counted (core : Core E) :
    Idle core { core with serial := core.serial + 1 } :=
  ⟨1, [], rfl, by simp⟩

theorem Idle.turn (idle : Idle core core') (serial : Nat) (event : Event E)
    (place : Slot) (view : View E) :
    Idle core (core'.note (.turn serial event place view)) := by
  obtain ⟨counted, added, rfl, turns⟩ := idle
  refine ⟨counted, .turn serial event place view :: added, rfl, ?_⟩
  intro happening among
  rcases List.mem_cons.mp among with rfl | among
  · trivial
  · exact turns happening among

theorem Idle.view (idle : Idle core core') : core'.view = core.view := by
  obtain ⟨_, _, rfl, _⟩ := idle
  rfl

/-- What turns and counting keep, is kept. -/
theorem Idle.carry {holds : Core E → Prop} (idle : Idle core core')
    (counted : ∀ core, holds core → holds { core with serial := core.serial + 1 })
    (turned : ∀ core serial event place view, holds core →
      holds (core.note (.turn serial event place view)))
    (start : holds core) : holds core' := by
  obtain ⟨count, added, rfl, turns⟩ := idle
  induction added with
  | nil =>
    induction count with
    | zero => exact start
    | succ count ih => exact counted _ ih
  | cons happening added ih =>
    have rest := ih fun entry among => turns entry (by simp [among])
    have is_turn := turns happening (by simp)
    cases happening with
    | turn serial event place view => exact turned _ serial event place view rest
    | _ => cases is_turn

end Idle

namespace Tables

variable (tree : Tables E)

/-! ### One turn -/

/-- The conditions of all rows of a slot for an event are false. -/
def silent (place : Slot) (event : Event E) (view : View E) : Prop :=
  ∀ item ∈ tree.arm place event view,
    tree.branch_condition place (view.state place).data event.data view item
      false = .ok false

section Turn

variable {tree} {calls : Calls E} {cause : Cause} {serial : Nat} {place : Slot}
  {matched event_data : E.Data} {event : Event E} {core core' : Core E}
  {arm : List (StateTransition E × Nat)}

theorem run_arm_handled {value : Bool}
    (run : tree.run_arm calls cause place matched event_data arm true core =
      .ok value core') : value = true := by
  induction arm generalizing core with
  | nil =>
    cases run
    rfl
  | cons item rest ih =>
    rw [run_arm_cons] at run
    split at run
    · cases run
    · exact ih run
    · obtain ⟨_, mid, _, further⟩ := bind_ok_iff.mp run
      exact ih further

theorem run_arm_silent
    (silent : ∀ item ∈ arm, tree.branch_condition place matched event_data
      core.view item false = .ok false) :
    tree.run_arm calls cause place matched event_data arm false core =
      .ok false core := by
  induction arm with
  | nil => rfl
  | cons item rest ih =>
    rw [run_arm_cons, silent item (by simp)]
    exact ih fun item among => silent item (by simp [among])

theorem silent_of_run_arm
    (run : tree.run_arm calls cause place matched event_data arm false core =
      .ok false core') :
    ∀ item ∈ arm, tree.branch_condition place matched event_data core.view item
      false = .ok false := by
  induction arm with
  | nil => simp
  | cons item rest ih =>
    rw [run_arm_cons] at run
    split at run
    · cases run
    · rename_i checked
      intro other among
      rcases List.mem_cons.mp among with rfl | among
      · exact checked
      · exact ih run other among
    · obtain ⟨_, mid, _, further⟩ := bind_ok_iff.mp run
      cases run_arm_handled further

/-- A turn does nothing exactly where all conditions are false. -/
theorem dispatch_code_idle (start : Core E) :
    Triple (Idle start) (tree.dispatch_code calls serial place event)
      (fun handled core =>
        if handled then ¬ tree.silent place event start.view
        else tree.silent place event start.view ∧ Idle start core)
      fun _ _ => ¬ tree.silent place event start.view := by
  intro core idle
  rw [dispatch_code_run, ← idle.view]
  by_cases silent : tree.silent place event core.view
  · have run := @run_arm_silent _ tree calls (.event serial) place _ event.data
      (core.note (.turn serial event place core.view)) _ silent
    rw [run]
    exact ⟨silent, idle.turn serial event place core.view⟩
  · cases run : tree.run_arm calls (.event serial) place
      (core.view.state place).data event.data (tree.arm place event core.view)
        false (core.note (.turn serial event place core.view)) with
    | error fault core' => exact silent
    | ok handled core' =>
      cases handled with
      | true => exact silent
      | false => exact absurd (silent_of_run_arm run) silent

end Turn

/-! ### A dispatch of a tree -/

/-- No active table of the tree has a row to try. -/
def deaf (event : Event E) (view : View E) : Prop :=
  ∀ place ∈ tree.dispatch_order, tree.active view place.node = true →
    tree.silent place event view

/-- The policy lets an event through, and an active table has a row whose
condition is true or cannot be evaluated. -/
def accepts (event : Event E) (view : View E) : Prop :=
  E.dispatch view.world event.ident = true ∧ ¬ tree.deaf event view

end Tables

/-- Behind some of the slots, in a dispatch from `start`. -/
def Listened (tree : Tables E) (event : Event E) (start : Core E)
    (front : List Slot) (handled : Bool) (core : Core E) : Prop :=
  if handled then ¬ tree.deaf event start.view
  else Idle start core ∧ ∀ place ∈ front,
    tree.active start.view place.node = true →
      tree.silent place event start.view

/-- A dispatch handles nothing exactly where no active table has a row to try,
and then it does nothing. -/
theorem parent_dispatch_idle {tree : Tree E} {calls : Calls E} {serial : Nat}
    {event : Event E} (start : Core E) :
    Triple (Idle start) (tree.parent_dispatch calls serial event)
      (fun handled core =>
        if handled then ¬ tree.deaf event start.view
        else tree.deaf event start.view ∧ Idle start core)
      fun _ _ => ¬ tree.deaf event start.view := by
  have offers : Offers tree.toTables calls serial event
      (fun node => tree.active start.view node = true)
      (Listened tree.toTables event start)
      fun _ _ => ¬ tree.deaf event start.view := by
    constructor
    · intro front node core listened awake
      rwa [listened.1.view] at awake
    · intro front place back before _ split awake
      cases before with
      | true => exact Triple.always.strengthen fun _ holds => holds.1
      | false =>
        have heard (loud : ¬ tree.silent place event start.view) :
            ¬ tree.deaf event start.view := fun deaf =>
          loud (deaf place (by simp [split]) (awake rfl))
        rintro core ⟨⟨idle, quiet⟩, _⟩
        refine (Tables.dispatch_code_idle start).conseq (fun _ => id) ?_
          (fun _ _ => heard) core idle
        intro handled core' ends
        cases handled with
        | true => exact heard ends
        | false =>
          refine ⟨ends.2, fun other among => ?_⟩
          rcases List.mem_append.mp among with earlier | last
          · exact quiet other earlier
          · rw [List.mem_singleton.mp last]
            exact fun _ => ends.1
    · intro front place before core left_out listened
      cases before with
      | true => exact listened
      | false =>
        obtain ⟨idle, quiet⟩ := listened
        refine ⟨idle, fun other among awake => ?_⟩
        rcases List.mem_append.mp among with earlier | last
        · exact quiet other earlier awake
        · rw [List.mem_singleton.mp last, ← idle.view] at awake
          rcases left_out with impossible | asleep
          · cases impossible
          · rw [asleep] at awake
            cases awake
  refine offers.parent_dispatch.conseq ?_ ?_ fun _ _ => id
  · exact fun core idle => ⟨idle, by simp⟩
  · intro handled core ends
    cases handled with
    | true => exact ends
    | false => exact ⟨ends.2, ends.1⟩

/-- An event that is not accepted is rejected, and nothing else happens. -/
theorem tree_run_event_idle {tree : Tree E} {calls : Calls E} {event : Event E}
    {core : Core E} (unheard : ¬ tree.accepts event core.view) :
    ∃ core', tree.run_event calls event core = .error .invalid_event core' ∧
      Idle core core' := by
  unfold Tables.run_event
  rw [get_bind_run]
  by_cases refused : E.dispatch core.view.world event.ident = false
  · rw [refused]
    exact ⟨core, rfl, .refl⟩
  have allowed : E.dispatch core.view.world event.ident = true := by
    simpa using refused
  have deaf : tree.deaf event core.view := by
    by_contra heard
    exact unheard ⟨allowed, heard⟩
  have dispatch := @parent_dispatch_idle _ tree calls core.serial event core _
    (.counted core)
  rw [allowed]
  show ∃ core', (tree.dispatch_attempt calls event >>= _) core = _ ∧ _
  unfold Tables.dispatch_attempt
  rw [bind_run, get_bind_run, set_bind_run, bind_run]
  unfold attempt
  cases run : tree.parent_dispatch calls core.serial event
      { core with serial := core.serial + 1 } with
  | error fault core' =>
    rw [run] at dispatch
    exact absurd deaf dispatch
  | ok handled core' =>
    rw [run] at dispatch
    cases handled with
    | true => exact absurd deaf dispatch
    | false => exact ⟨core', rfl, dispatch.2⟩

/-! ### A dispatch of a flat machine -/

namespace Flat

variable (flat : Flat E)

/-- The conditions of all rows for an event are false. -/
def silent (event : Event E) (view : View E) : Prop :=
  ∀ item ∈ flat.dispatch_arm (view.state slot).ident event.ident,
    Tables.row_enabled item.1 ⟨(view.state slot).data, event.data⟩ view.world
      item.2 = .ok false

/-- The policy lets an event through, and there is a row for it whose condition
is true or cannot be evaluated. -/
def accepts (event : Event E) (view : View E) : Prop :=
  E.dispatch view.world event.ident = true ∧ ¬ flat.silent event view

variable {flat} {calls : Calls E} {cause : Cause} {serial : Nat}
  {event : Event E} {payload : Tables.Payload E} {core core' : Core E}
  {arm : List (StateTransition E × Nat)}

theorem transition_code_run (row : StateTransition E) (index : Nat) :
    flat.transition_code calls cause row payload index core =
      match Tables.row_enabled row payload core.view.world index with
      | .error error =>
          .error (.guard_failed error) (core.note (.raised cause))
      | .ok false => .ok false core
      | .ok true =>
          (flat.row_body calls cause row payload index >>= fun _ => pure true)
            core := by
  unfold transition_code
  rw [get_bind_run, bind_run]
  cases Tables.row_enabled row payload core.view.world index with
  | error error => rfl
  | ok enabled => cases enabled <;> rfl

theorem try_rows_silent
    (silent : ∀ item ∈ arm,
      Tables.row_enabled item.1 payload core.view.world item.2 = .ok false) :
    flat.try_rows calls cause payload arm core = .ok false core := by
  induction arm with
  | nil => rfl
  | cons item rest ih =>
    obtain ⟨row, index⟩ := item
    unfold try_rows
    have idle := silent (row, index) (by simp)
    rw [bind_run, transition_code_run, idle]
    exact ih fun item among => silent item (by simp [among])

theorem silent_of_try_rows
    (run : flat.try_rows calls cause payload arm core = .ok false core') :
    ∀ item ∈ arm,
      Tables.row_enabled item.1 payload core.view.world item.2 = .ok false := by
  induction arm with
  | nil => simp
  | cons item rest ih =>
    obtain ⟨row, index⟩ := item
    unfold try_rows at run
    rw [bind_run, transition_code_run] at run
    cases checked : Tables.row_enabled row payload core.view.world index with
    | error error =>
      rw [checked] at run
      cases run
    | ok enabled =>
      rw [checked] at run
      cases enabled with
      | true =>
        simp only [bind_run] at run
        cases body : flat.row_body calls cause row payload index core with
        | error fault mid =>
          rw [body] at run
          cases run
        | ok value mid =>
          rw [body] at run
          cases run
      | false =>
        intro other among
        rcases List.mem_cons.mp among with rfl | among
        · exact checked
        · exact ih run other among

theorem dispatch_code_run :
    flat.dispatch_code calls serial event core =
      (if (flat.dispatch_arm (core.view.state slot).ident event.ident).isEmpty
        then throw .invalid_event
        else do
          let handled ← flat.try_rows calls (.event serial)
            ⟨(core.view.state slot).data, event.data⟩
            (flat.dispatch_arm (core.view.state slot).ident event.ident)
          if handled then do
            note (.handled serial slot)
            complete (flat.process_completion calls event) calls.fuel
          else throw .transitions_failed : Effect E Unit)
        (core.note (.turn serial event slot core.view)) := rfl

theorem dispatch_code_silent (silent : flat.silent event core.view) :
    ∃ fault, flat.dispatch_code calls serial event core =
      .error fault (core.note (.turn serial event slot core.view)) ∧
        fault.rejection = true := by
  have tried := @try_rows_silent _ flat calls (.event serial)
    ⟨(core.view.state slot).data, event.data⟩
    (core.note (.turn serial event slot core.view)) _ silent
  cases arm : (flat.dispatch_arm (core.view.state slot).ident
    event.ident).isEmpty with
  | true =>
    refine ⟨.invalid_event, ?_, rfl⟩
    rw [dispatch_code_run, if_pos arm]
    rfl
  | false =>
    refine ⟨.transitions_failed, ?_, rfl⟩
    rw [dispatch_code_run, if_neg (by simp [arm]), bind_run, tried]
    rfl

/-- An event that is not accepted is rejected, and nothing else happens. -/
theorem run_event_idle (unheard : ¬ flat.accepts event core.view) :
    ∃ fault core', flat.run_event calls event core = .error fault core' ∧
      fault.rejection = true ∧ Idle core core' := by
  unfold Flat.run_event
  rw [get_bind_run]
  by_cases refused : E.dispatch core.view.world event.ident = false
  · rw [refused]
    exact ⟨_, core, rfl, rfl, .refl⟩
  have allowed : E.dispatch core.view.world event.ident = true := by
    simpa using refused
  have silent : flat.silent event core.view := by
    by_contra heard
    exact unheard ⟨allowed, heard⟩
  obtain ⟨fault, run, rejected⟩ := @dispatch_code_silent _ flat calls core.serial
    event { core with serial := core.serial + 1 } silent
  have unfailed : fault.error = none := by
    cases fault <;> first | rfl | cases rejected
  rw [allowed]
  show ∃ fault core', (attempt (flat.dispatch_code calls core.serial event) >>= _)
    { core with serial := core.serial + 1 } = _ ∧ _
  rw [bind_run]
  unfold attempt
  rw [run]
  refine ⟨fault, _, ?_, rejected,
    (Idle.counted core).turn core.serial event slot core.view⟩
  show flat.dispatch_outcome calls (.error fault) _ = _
  unfold Flat.dispatch_outcome
  simp only [unfailed]
  rfl

end Flat

end SmlRs.Macros
