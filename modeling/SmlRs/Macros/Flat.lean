/-
Module: SmlRs.Macros.Flat
Purpose: The code generated for a flat machine: one table without regions or
  tables nested in its states.
Trusted boundary: none
Main exports: Flat, transition_code, dispatch, process_completion,
  process_exception, process_event, initialize_unlocked
-/
import SmlRs.Macros.Selection

namespace SmlRs.Macros

open Lib

variable {E : Environment}

/-- A flat machine: a table, and the `on_entry_*` and `on_exit_*` callbacks of
its context. -/
structure Flat (E : Environment) where
  table : Table E
  on_entry : E.Ident → E.World → E.World := fun _ world => world
  on_exit : E.Ident → E.World → E.World := fun _ world => world
  async_queue : Bool := false
  capacity : Nat := 16

/-- Calls a callback that cannot fail. -/
def call_hook (hook : E.World → E.World) : Effect E Unit :=
  modify fun core =>
    core.set { core.view with world := hook core.view.world }

namespace Flat

variable (flat : Flat E)

/-- The table as a tree of its own.  The queue code of its rows is the same. -/
def tables : Tables E where
  size := 1
  node _ := { flat.table with owner := 0, variant := E.X, depth := 0 }
  async_queue := flat.async_queue
  capacity := flat.capacity

/-- The slot that stands for `self.state` and `self.exit_skip`. -/
def slot : Slot := ⟨0, 0⟩

/-- The actions of the first lifecycle row of a kind from a state. -/
def lifecycle (kind : EventKind) (state : E.Ident) : List E.Ident :=
  (((flat.table.rows state).find? fun row => row.event.kind = kind).map
    (·.actions)).getD []

/-! ### One row -/

section Row

variable (calls : Calls E) (cause : Cause) (row : StateTransition E)
  (payload : Tables.Payload E)

/-- The exits of an external row, unless the token says that they have run. -/
def exits (skipped : Bool) : Effect E Unit :=
  if skipped then set_skip slot false
  else do
    call_hook (flat.on_exit row.in_state.ident)
    action_calls (flat.lifecycle .exit row.in_state.ident) []
    note (.exited slot)

def leave : Effect E Unit := do
  let core ← get
  flat.exits row (core.view.exit_skip slot)
  set_skip slot true

/-- The entries behind a state change. -/
def entries : Effect E Unit := do
  call_hook (flat.on_entry row.out_state.ident)
  action_calls (flat.lifecycle .entry row.out_state.ident) []

/-- The state change of an external row and the entries behind it. -/
def arrive (output : E.Data) : Effect E Unit := do
  let core ← get
  note (.replaced slot (core.view.state slot).ident)
  set_state slot ⟨row.out_state.ident, output⟩
  set_skip slot false
  note (.entered slot)
  note (.log_state_change row.in_state.ident row.out_state.ident)
  marking (fun _ => .unentered slot) (flat.entries row)

def move : Effect E Unit := do
  flat.leave row
  let output ← Tables.run_actions row payload
  flat.arrive row output

/-- The actions of a row, and its move if it is external. -/
def change : Effect E Unit :=
  if row.internal_transition then do
    let _ ← run_items
      (row.callback_args payload.state_data payload.event_data) row.items
  else flat.move row payload

/-- `transition` up to `finish_transition`. -/
def row_body (candidate_index : Nat) : Effect E Unit := do
  let core ← get
  note (.fired cause slot row candidate_index core.view)
  flat.tables.perform calls cause row payload (flat.change row payload)

/-- One candidate: whether its row has run. -/
def transition_code (candidate_index : Nat) : Effect E Bool := do
  let core ← get
  let runs ← marking (fun _ => .raised cause) (lift .guard_failed
    (Tables.row_enabled row payload core.view.world candidate_index))
  if runs then do
    flat.row_body calls cause row payload candidate_index
    pure true
  else pure false

end Row

/-! ### The rows of a mapping -/

/-- The rows from a state that share an event, with their candidate indices. -/
def mapping (state : E.Ident) (shared : StateTransition E → Bool) :
    List (StateTransition E × Nat) :=
  ((flat.table.rows state).filter shared).zipIdx

/-- The first mapping that has a row. -/
def first_of : List (List (StateTransition E × Nat)) →
    List (StateTransition E × Nat)
  | [] => []
  | [] :: rest => first_of rest
  | rows :: _ => rows

/-- `state_dispatch_arms`: the rows of a state for an event. -/
def dispatch_arm (state event : E.Ident) : List (StateTransition E × Nat) :=
  first_of
    [flat.mapping state fun row => row.triggered .normal event,
      flat.mapping state fun row => row.triggered .unexpected event,
      flat.mapping state fun row => row.anonymous .unexpected]

/-- `completion_state_arms`: the rows for the completion of an event hide the
anonymous ones. -/
def completion_arm (state event : E.Ident) : List (StateTransition E × Nat) :=
  first_of
    [flat.mapping state fun row => row.triggered .completion event,
      flat.mapping state fun row => row.anonymous .completion]

/-- `exception_state_arms`: the rows for the error type hide the others. -/
def exception_arm (state : E.Ident) : List (StateTransition E × Nat) :=
  first_of
    [flat.mapping state fun row =>
        row.event.kind = .exception && !row.event.wildcard,
      flat.mapping state fun row =>
        row.event.kind = .exception && row.event.wildcard]

/-- The candidates of a mapping one after the other, up to the first that
runs. -/
def try_rows (calls : Calls E) (cause : Cause) (payload : Tables.Payload E) :
    List (StateTransition E × Nat) → Effect E Bool
  | [] => pure false
  | (row, candidate_index) :: rest => do
      let ran ← flat.transition_code calls cause row payload candidate_index
      if ran then pure true else try_rows calls cause payload rest

/-! ### Completions, exceptions and dispatch -/

/-- `process_completion`. -/
def process_completion (calls : Calls E) (origin : Event E) : Effect E Bool := do
  let core ← get
  let held := core.view.state slot
  flat.try_rows calls .completion ⟨held.data, origin.data⟩
    (flat.completion_arm held.ident origin.ident)

/-- `process_anonymous_completion`. -/
def process_anonymous_completion (calls : Calls E) : Effect E Bool := do
  let core ← get
  let held := core.view.state slot
  flat.try_rows calls .completion ⟨held.data, E.default⟩
    (flat.mapping held.ident fun row => row.anonymous .completion)

/-- A loop over a completion until none of its rows runs. -/
def complete (step : Effect E Bool) : Nat → Effect E Unit
  | 0 => throw .diverged
  | fuel + 1 => do
      let ran ← step
      if ran then complete step fuel else pure ()

/-- `process_exception`: whether a row has handled the error. -/
def process_exception (calls : Calls E) (serial : Nat) (error : E.Data) :
    Effect E Bool := do
  let core ← get
  note (.recovering serial error slot core.view)
  let held := core.view.state slot
  flat.try_rows calls (.exception serial) ⟨held.data, error⟩
    (flat.exception_arm held.ident)

/-- The rows for an event, and the completions behind the one that runs. -/
def dispatch_code (calls : Calls E) (serial : Nat) (event : Event E) :
    Effect E Unit := do
  let core ← get
  note (.turn serial event slot core.view)
  let held := core.view.state slot
  let arm := flat.dispatch_arm held.ident event.ident
  if arm.isEmpty then throw .invalid_event
  else do
    let handled ← flat.try_rows calls (.event serial) ⟨held.data, event.data⟩ arm
    if handled then do
      note (.handled serial slot)
      complete (flat.process_completion calls event) calls.fuel
    else throw .transitions_failed

/-- A fault of a dispatch is offered to the exception rows. -/
def dispatch_outcome (calls : Calls E) :
    Except (Fault E) Unit → Effect E Unit
  | .ok _ => pure ()
  | .error fault =>
      match fault.error with
      | none => throw fault
      | some error =>
          if !flat.tables.has_exception_handlers then throw fault
          else do
            let core ← get
            set { core with serial := core.serial + 1 }
            note (.offered core.serial)
            let handled ← flat.process_exception calls core.serial error
            if handled then pure () else throw fault

/-- `event_dispatch`, behind the policy. -/
def run_event (calls : Calls E) (event : Event E) : Effect E Unit := do
  let core ← get
  if !E.dispatch core.view.world event.ident then throw .invalid_event
  else do
    set { core with serial := core.serial + 1 }
    let outcome ← attempt (flat.dispatch_code calls core.serial event)
    flat.dispatch_outcome calls outcome

/-- The loop over the pending queue of an asynchronous machine. -/
def run_pending (calls : Calls E) : Nat → Effect E Unit
  | 0 => throw .diverged
  | fuel + 1 => do
      let core ← get
      match core.pending with
      | [] => pure ()
      | event :: rest => do
          set { core with pending := rest }
          note (.dequeued event rest core.view)
          marking (fun _ => .failed) (flat.run_event calls event)
          run_pending calls fuel

/-- `__sml_process_event_unlocked`, with calls nested at most `fuel` deep. -/
def process_event : Nat → Event E → Effect E Unit
  | 0, _ => throw .diverged
  | fuel + 1, event =>
      let calls := ⟨process_event fuel, fuel⟩
      if flat.async_queue then do
        process flat.capacity event
        flat.run_pending calls fuel
      else flat.run_event calls event

/-- The entries of `__sml_initialize_unlocked`. -/
def initial_entries : Effect E Unit := do
  let core ← get
  let held := (core.view.state slot).ident
  note (.entered slot)
  call_hook (flat.on_entry held)
  action_calls (flat.lifecycle .entry held) []

/-- `__sml_initialize_unlocked`. -/
def initialize_unlocked (fuel : Nat) : Effect E Unit := do
  flat.initial_entries
  complete (flat.process_anonymous_completion ⟨flat.process_event fuel, fuel⟩)
    fuel

/-- The core of a new machine. -/
def new (world : E.World) : Core E :=
  flat.tables.new world

end Flat

end SmlRs.Macros
