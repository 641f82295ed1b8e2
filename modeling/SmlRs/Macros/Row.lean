/-
Module: SmlRs.Macros.Row
Purpose: What one row does, and how a table or region picks its rows for an
  event, a completion or an error.
Trusted boundary: none
Main exports: Calls, tree_exit_children, tree_enter_children, move, row_body,
  transition_code, dispatch_code, completion_code, exception_code
-/
import SmlRs.Macros.Core

namespace SmlRs.Macros

open Lib

variable {E : Environment}

/-!
The composite and the orthogonal generator lower a row by the same code, one on
a slot of its own and one on the slot of a region.  The definitions here take
the slot as a parameter and say where the two differ.
-/

/-- What a row may call: the machine itself, for `process(...)` and the retries
of deferred events, and how many retries a loop may take. -/
structure Calls (E : Environment) where
  process_event : Event E → Effect E Unit
  fuel : Nat

namespace Tables

variable (tree : Tables E)

/-! ### Entering and leaving subtrees -/

/-- Runs the lifecycle hooks of the state in a slot. -/
def current_lifecycle (kind : EventKind) (place : Slot) : Effect E Unit := do
  let core ← get
  let held := core.view.state place
  let table := (tree.node place.node).toTable
  action_calls (table.hooks kind held.ident)
    (if table.has_data held.ident then [held.data] else [])

/-- Exits one slot of a table that is left, unless its token is set: first what
is nested in its state, then the state. -/
def exit_slot (nested : Slot → Effect E Unit) (place : Slot) :
    Effect E Unit := do
  let core ← get
  unless core.view.exit_skip place do
    nested place
    tree.current_lifecycle .exit place
    note (.exited place)
    set_skip place true

/-- `tree_exit_node`, and `exit_current` of an orthogonal table. -/
def tree_exit_node (nested : Slot → Effect E Unit) (node : Nat) :
    Effect E Unit :=
  (tree.slots node).forM (tree.exit_slot nested)

/-- `tree_exit_children`, for tables nested at most `depth` deep. -/
def tree_exit_children : Nat → Slot → Effect E Unit
  | 0, _ => pure ()
  | depth + 1, place => do
      let core ← get
      match tree.child place.node (core.view.state place).ident with
      | none => pure ()
      | some node => tree.tree_exit_node (tree_exit_children depth) node

/-- Enters one slot: its token is cleared, then its state is entered and what is
nested in it. -/
def enter_slot (nested : Slot → Effect E Unit) (place : Slot) :
    Effect E Unit := do
  set_skip place false
  note (.entered place)
  tree.current_lifecycle .entry place
  nested place

/-- The initial state of a region. -/
def initial (place : Slot) : E.Ident :=
  (((tree.node place.node).regions[place.region]?).map (·.initial)).getD E.X

/-- Sets a slot back to its initial state. -/
def reset_slot (place : Slot) : Effect E Unit := do
  note (.reset place)
  set_state place ⟨tree.initial place, E.default⟩

/-- `tree_enter_node`, and `enter_current` of an orthogonal table. Only a scalar
table looks at its history. -/
def tree_enter_node (nested : Slot → Effect E Unit) (node : Nat) :
    Effect E Unit := do
  let table := (tree.node node).toTable
  unless !table.orthogonal && table.history do
    (tree.slots node).forM tree.reset_slot
  (tree.slots node).forM (tree.enter_slot nested)

/-- `tree_enter_children`, for tables nested at most `depth` deep. -/
def tree_enter_children : Nat → Slot → Effect E Unit
  | 0, _ => pure ()
  | depth + 1, place => do
      let core ← get
      match tree.child place.node (core.view.state place).ident with
      | none => pure ()
      | some node => tree.tree_enter_node (tree_enter_children depth) node

/-- `composite_exit` of a row at a slot. -/
def composite_exit (place : Slot) : Effect E Unit :=
  tree.tree_exit_children tree.size place

/-- `composite_entry` of a row at a slot. -/
def composite_entry (place : Slot) : Effect E Unit :=
  tree.tree_enter_children tree.size place

/-! ### One row -/

/-- The payloads of the source state and of the event when a row is tried. -/
structure Payload (E : Environment) where
  state_data : E.Data
  event_data : E.Data

/-- Whether a state change of this cause is reported to the policy.  The callback
of a scalar child's exception rows leaves the report out. -/
def reports (cause : Cause) (place : Slot) : Bool :=
  !(cause.recovers && place.node ≠ 0 &&
    !(tree.node place.node).orthogonal && !tree.single_child)

section Row

variable (calls : Calls E) (cause : Cause) (place : Slot)
  (row : StateTransition E) (payload : Payload E)

/-- The exits of an external row, unless the token of its slot says that they
have run. `composite_lifecycle` drops the walk unless only the source of the row
is composite. -/
def exits (skipped : Bool) : Effect E Unit :=
  if skipped then set_skip place false
  else do
    given (row.in_state.composite && !row.out_state.composite)
      (tree.composite_exit place)
    action_calls ((tree.node place.node).hooks .exit row.in_state.ident)
      (if row.state_arg then [payload.state_data] else [])
    note (.exited place)

def leave : Effect E Unit := do
  let core ← get
  tree.exits place row payload (core.view.exit_skip place)
  set_skip place true

/-- The entries behind a state change. `composite_lifecycle` drops the walk
unless only the target of the row is composite. -/
def entries (output : E.Data) : Effect E Unit := do
  action_calls ((tree.node place.node).hooks .entry row.out_state.ident)
    (if row.target_has_data then [output] else [])
  given (row.out_state.composite && !row.in_state.composite)
    (tree.composite_entry place)

/-- The state change of an external row and the entries behind it. -/
def arrive (output : E.Data) : Effect E Unit := do
  let core ← get
  let old := (core.view.state place).ident
  note (.replaced place old)
  set_state place ⟨row.out_state.ident, output⟩
  set_skip place false
  note (.entered place)
  given (tree.reports cause place)
    (note (.log_state_change old row.out_state.ident))
  marking (fun _ => .unentered place) (tree.entries place row output)

/-- `action_code`, with the data of the target state. -/
def run_actions : Effect E E.Data := do
  let output ← run_items
    (row.callback_args payload.state_data payload.event_data) row.items
  pure (if row.produces_state then output else E.default)

/-- An external row up to the end of its entries. -/
def move : Effect E Unit := do
  tree.leave place row payload
  let output ← run_actions row payload
  tree.arrive cause place row output

/-- `defer_code`. -/
def defer_code : Effect E Unit :=
  if row.defer then do
    let event : Event E := ⟨row.event.ident, payload.event_data⟩
    defer tree.capacity event
    note (.put_off event)
  else pure ()

/-- Puts an event of a row into the pending queue. -/
def put (event : Event E) : Effect E Unit := do
  process tree.capacity event
  note (.put event)

/-- `process_code` of a synchronous machine: the events are dispatched one after
the other. -/
def process_now : Effect E Unit := do
  let order ← row.process_events.foldlM (fun order event => do
      let core ← get
      note (.follow_up event core.view)
      marking (fun _ => .queued row.process_events (order ++ [event]))
        (calls.process_event event)
      pure (order ++ [event])) []
  note (.queued row.process_events order)

/-- The events that were put into the pending queue since it held `before`. -/
def added (before core : Core E) : List (Event E) :=
  core.pending.take (core.pending.length - before.pending.length)

/-- `process_code` of an asynchronous machine: the events go to the pending
queue. -/
def process_later : Effect E Unit := do
  let before ← get
  recording (fun core => .queued row.process_events (added before core))
    (row.process_events.forM tree.put)

/-- `process_code`. -/
def process_code : Effect E Unit :=
  if tree.async_queue then tree.process_later row else process_now calls row

/-- The retries of the deferred events in a synchronous machine. -/
def retry : Nat → Effect E Unit
  | 0 => throw .diverged
  | fuel + 1 => do
      let core ← get
      match core.deferred with
      | [] => pure ()
      | event :: rest => do
          set { core with deferred := rest }
          note (.released event core.view)
          match ← attempt (calls.process_event event) with
          | .ok _ | .error .invalid_event | .error .transitions_failed =>
              retry fuel
          | .error fault => throw fault

/-- Moves the first of the deferred events to the pending queue. -/
def requeue_one (view : View E) (event : Event E) : Effect E Unit := do
  modify fun core => { core with deferred := core.deferred.tail }
  note (.released event view)
  tree.put event

/-- Moves the deferred events to the pending queue of an asynchronous machine. -/
def requeue : Effect E Unit := do
  let before ← get
  recording (fun core => .requeued before.deferred (added before core))
    (before.deferred.forM (tree.requeue_one before.view))

/-- `drain_deferred`. -/
def drain_deferred : Effect E Unit :=
  if tree.has_deferred_events && !row.internal_transition then
    if tree.async_queue then tree.requeue else retry calls calls.fuel
  else pure ()

/-- The events a row dispatches or queues. -/
def queue_work : Effect E Unit := do
  tree.process_code calls row
  tree.drain_deferred calls row

/-- The actions of a row, and its move if it is external. -/
def change : Effect E Unit :=
  if row.internal_transition then do
    let _ ← run_items
      (row.callback_args payload.state_data payload.event_data) row.items
  else tree.move cause place row payload

/-- What a row does around its change: a fault of the change itself is marked,
and so is one of the events behind it. -/
def perform (change : Effect E Unit) : Effect E Unit := do
  marking (fun _ => .raised cause) change
  tree.defer_code row payload
  marking (.surfaced cause) (tree.queue_work calls row)

/-- What a row does. -/
def run_row : Effect E Unit :=
  tree.perform calls cause row payload (tree.change cause place row payload)

/-- The body of a row. -/
def row_body (candidate_index : Nat) : Effect E Unit := do
  let core ← get
  note (.fired cause place row candidate_index core.view)
  tree.run_row calls cause place row payload

/-- `__sml_dispatch_candidate`, which only event rows ask. -/
def candidate_dispatch (world : E.World) (candidate_index : Nat) : Bool :=
  match row.event.kind with
  | .normal | .unexpected =>
      E.dispatch_candidate world row.in_state.ident row.event.ident
        candidate_index
  | _ => true

/-- The condition of a row in a world. -/
def row_condition (world : E.World) (candidate_index : Nat) (handled : Bool) :
    Except E.Data Bool :=
  condition handled (candidate_dispatch row world candidate_index)
    (fun name => E.guard name
      (row.callback_args payload.state_data payload.event_data) world)
    row.guard

/-- `transition_code`, and `generate_transition_branch` of a region. Returns the
flag that says whether a row has run. -/
def transition_code (candidate_index : Nat) (handled : Bool) :
    Effect E Bool := do
  let core ← get
  let runs ← marking (fun _ => .raised cause) (lift .guard_failed
    (row_condition row payload core.view.world candidate_index handled))
  if runs then do
    tree.row_body calls cause place row payload candidate_index
    pure true
  else pure handled

end Row

/-! ### The rows of an arm -/

/-- Whether the rows of a slot bind the data of its state one by one.  A region
binds it once, where its arm is matched. -/
def rebinds (place : Slot) (row : StateTransition E) : Bool :=
  !(tree.node place.node).orthogonal && row.state_arg

/-- One row of an arm, behind the pattern that binds the data of its source. -/
def branch (calls : Calls E) (cause : Cause) (place : Slot)
    (matched : E.Data) (event_data : E.Data) (candidate_index : Nat)
    (row : StateTransition E) (handled : Bool) : Effect E Bool := do
  let core ← get
  let held := core.view.state place
  if tree.rebinds place row then
    if held.ident = row.in_state.ident then
      tree.transition_code calls cause place row ⟨held.data, event_data⟩
        candidate_index handled
    else pure handled
  else
    tree.transition_code calls cause place row ⟨matched, event_data⟩
      candidate_index handled

/-- The rows a table or region has for a state. -/
def rows (place : Slot) (state : E.Ident) : List (StateTransition E) :=
  let table := (tree.node place.node).toTable
  if !table.orthogonal || (table.regions[place.region]?).any
      fun region => region.states.contains state then table.rows state
  else []

/-- The arm of a state and an event, with the candidate index of each row: the
normal rows, else the first row for the unexpected event, else the first row for
any unexpected event. -/
def dispatch_arm (place : Slot) (state event : E.Ident) :
    List (StateTransition E × Nat) :=
  let rows := tree.rows place state
  match rows.filter fun row => row.triggered .normal event with
  | [] =>
      match rows.find? fun row => row.triggered .unexpected event with
      | some row => [(row, 0)]
      | none =>
          match rows.find? fun row => row.anonymous .unexpected with
          | some row => [(row, 0)]
          | none => []
  | candidates => candidates.zipIdx

/-- Runs the rows of an arm one behind the other. -/
def run_arm (calls : Calls E) (cause : Cause) (place : Slot)
    (matched event_data : E.Data) (arm : List (StateTransition E × Nat))
    (handled : Bool) : Effect E Bool :=
  arm.foldlM (fun handled item =>
    tree.branch calls cause place matched event_data item.2 item.1 handled)
    handled

/-- `dispatch_code`, and `generate_region_dispatch` of a region. -/
def dispatch_code (calls : Calls E) (serial : Nat) (place : Slot)
    (event : Event E) : Effect E Bool := do
  let core ← get
  note (.turn serial event place core.view)
  let held := core.view.state place
  let handled ← tree.run_arm calls (.event serial) place held.data event.data
    (tree.dispatch_arm place held.ident event.ident) false
  given handled (note (.handled serial place))
  pure handled

/-! ### Completions -/

/-- `collect_states` and the terminal check of a table. -/
def node_terminal (view : View E) (node : Nat) : Bool :=
  (tree.node node).has_state E.X &&
    (tree.slots node).all fun place => (view.state place).ident = E.X

/-- `tree_child_terminal`. -/
def child_terminal (view : View E) (place : Slot) : Bool :=
  match tree.child place.node (view.state place).ident with
  | none => false
  | some node => tree.node_terminal view node

/-- Whether a completion row of a slot may run: a composite source has to be
terminal. -/
def eligible (view : View E) (place : Slot) (row : StateTransition E) : Bool :=
  !row.in_state.composite || tree.child_terminal view place

/-- The rows for the completion of an event. A region has an arm for each row,
and the first one hides the others. -/
def origin_arm (place : Slot) (state event : E.Ident) :
    List (StateTransition E) :=
  let rows := (tree.rows place state).filter fun row =>
    row.triggered .completion event
  if (tree.node place.node).orthogonal then rows.take 1 else rows

def anonymous_arm (place : Slot) (state : E.Ident) : List (StateTransition E) :=
  (tree.rows place state).filter fun row => row.anonymous .completion

/-- Runs the rows of a completion arm. A scalar table checks the source once,
where the arm is matched, and a region for each row. -/
def run_completions (calls : Calls E) (place : Slot) (event_data : E.Data)
    (arm : List (StateTransition E)) : Effect E Bool := do
  let core ← get
  let held := core.view.state place
  let orthogonal := (tree.node place.node).orthogonal
  if !orthogonal && !arm.all (tree.eligible core.view place) then pure false
  else
    arm.foldlM (fun handled row => do
      let core ← get
      if orthogonal && !tree.eligible core.view place row then pure handled
      else
        tree.branch calls .completion place held.data event_data 0 row handled)
      false

/-- The completions for the origin event, before the anonymous ones. -/
def origin_code (calls : Calls E) (place : Slot) :
    Option (Event E) → Effect E Bool
  | none => pure false
  | some event => do
      let core ← get
      tree.run_completions calls place event.data
        (tree.origin_arm place (core.view.state place).ident event.ident)

/-- `completion_code`, and `generate_completion_dispatch` of a region. -/
def completion_code (calls : Calls E) (place : Slot)
    (origin : Option (Event E)) : Effect E Bool := do
  let handled ← tree.origin_code calls place origin
  if handled then pure true
  else do
    let core ← get
    tree.run_completions calls place E.default
      (tree.anonymous_arm place (core.view.state place).ident)

/-! ### Exceptions -/

/-- The exception rows of a state, those for the error type first. -/
def exception_arm (place : Slot) (state : E.Ident) : List (StateTransition E) :=
  let rows := (tree.rows place state).filter fun row =>
    row.event.kind = .exception
  rows.filter (fun row => !row.event.wildcard) ++
    rows.filter fun row => row.event.wildcard

/-- One row of the match of `exception_code`: it is left out where an earlier one
has handled the error. Says whether a row that handled it moved. -/
def exception_row (calls : Calls E) (serial : Nat) (place : Slot)
    (matched error : E.Data) :
    Option Bool → StateTransition E → Effect E (Option Bool)
  | some moved, _ => pure (some moved)
  | none, row => do
      let handled ← tree.branch calls (.exception serial) place matched error 0
        row false
      pure (if handled then some row.exception_row_moves else none)

/-- The match of `exception_code`, and of one region in
`generate_exception_dispatch`. -/
def exception_code (calls : Calls E) (serial : Nat) (place : Slot)
    (error : E.Data) : Effect E (Option Bool) := do
  let core ← get
  note (.recovering serial error place core.view)
  let held := core.view.state place
  (tree.exception_arm place held.ident).foldlM
    (tree.exception_row calls serial place held.data error) none

end Tables

end SmlRs.Macros
