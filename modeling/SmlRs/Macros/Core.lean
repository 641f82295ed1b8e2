/-
Module: SmlRs.Macros.Core
Purpose: The core of a generated machine and the effects its code is made of.
Trusted boundary: none
Main exports: Fault, View, Happening, Core, Effect, call_action, run_items
-/
import Mathlib.Logic.Function.Basic
import SmlRs.Lib.Effect
import SmlRs.Macros.Table

namespace SmlRs.Macros

open Lib

variable {E : Environment}

/-- The generated error type.  `diverged` is not part of it: a run that is cut
short by the bound of the model ends with it. -/
inductive Fault (E : Environment) where
  | invalid_event
  | transitions_failed
  | guard_failed (error : E.Data)
  | action_failed (error : E.Data)
  | queue_full
  | diverged

/-- The error a guard or an action failed with. -/
def Fault.error : Fault E → Option E.Data
  | .guard_failed error | .action_failed error => some error
  | _ => none

/-- The event found no row, or the policy refused it. -/
def Fault.rejection : Fault E → Bool
  | .invalid_event | .transitions_failed => true
  | .guard_failed _ | .action_failed _ | .queue_full | .diverged => false

theorem Fault.proper_of_error {fault : Fault E}
    (failed : fault.error.isSome = true) : fault.rejection = false := by
  cases fault <;> first | rfl | cases failed

/-- What rows read: the state slots with their exit-skip tokens, and what the
context and the policy hold. -/
structure View (E : Environment) where
  state : Slot → StateValue E
  exit_skip : Slot → Bool
  world : E.World

namespace View

/-- Replaces the state of a slot. -/
def replace (view : View E) (place : Slot) (value : StateValue E) : View E :=
  { view with state := Function.update view.state place value }

/-- Sets or clears the exit-skip token of a slot. -/
def skip (view : View E) (place : Slot) (token : Bool) : View E :=
  { view with exit_skip := Function.update view.exit_skip place token }

variable (view : View E) (place : Slot) (value : StateValue E) (token : Bool)
  (world : E.World)

@[simp] theorem replace_state :
    (view.replace place value).state =
      Function.update view.state place value := rfl

@[simp] theorem replace_exit_skip :
    (view.replace place value).exit_skip = view.exit_skip := rfl

@[simp] theorem replace_world :
    (view.replace place value).world = view.world := rfl

@[simp] theorem skip_state : (view.skip place token).state = view.state := rfl

@[simp] theorem skip_exit_skip :
    (view.skip place token).exit_skip =
      Function.update view.exit_skip place token := rfl

@[simp] theorem skip_world : (view.skip place token).world = view.world := rfl

end View

/-- Why a row is run. A dispatch has a number, and so has a walk of the
exception rows. -/
inductive Cause where
  | event (serial : Nat)
  | completion
  | exception (serial : Nat)
deriving DecidableEq

def Cause.recovers : Cause → Bool
  | .exception _ => true
  | .event _ | .completion => false

/-- What happens in a run. No code reads it. -/
inductive Happening (E : Environment) where
  /-- A table or region has its turn with the event of a dispatch. -/
  | turn (serial : Nat) (event : Event E) (place : Slot) (before : View E)
  /-- The condition of a row was true, and its body begins. -/
  | fired (cause : Cause) (place : Slot) (row : StateTransition E)
      (candidate_index : Nat) (before : View E)
  /-- A turn ended with the event handled. -/
  | handled (serial : Nat) (place : Slot)
  /-- The exit sequence of the state in a slot has completed. -/
  | exited (place : Slot)
  /-- A slot is occupied anew and its token cleared. -/
  | entered (place : Slot)
  /-- A row replaces the state that a slot holds. -/
  | replaced (place : Slot) (held : E.Ident)
  /-- A slot is set back to its initial state on the way into its table. -/
  | reset (place : Slot)
  | log_state_change (old new : E.Ident)
  /-- A completion row of a table or region failed. -/
  | faulted (place : Slot)
  /-- An exception row has handled a completion fault. -/
  | recovered (moved : Bool)
  /-- A callback of a row has failed. -/
  | raised (cause : Cause)
  /-- A fault is offered to the exception rows. -/
  | offered (serial : Nat)
  /-- A table or region has its turn in a walk of the exception rows. -/
  | recovering (serial : Nat) (error : E.Data) (place : Slot) (before : View E)
  /-- The events that a row has to dispatch or to queue end with a fault. -/
  | surfaced (cause : Cause) (fault : Fault E)
  /-- A slot was occupied anew, and the entries behind it failed. -/
  | unentered (place : Slot)
  /-- A row dispatches one of its `process(...)` events. -/
  | follow_up (event : Event E) (before : View E)
  /-- The `process(...)` events of a row, as they are declared and in the order
  in which they were dispatched or will leave the queue; fewer of them where one
  has failed or the queue was full. -/
  | queued (declared order : List (Event E))
  /-- A row has put an event into the pending queue. -/
  | put (event : Event E)
  /-- A row has deferred an event. -/
  | put_off (event : Event E)
  /-- An event leaves the deferred queue. -/
  | released (event : Event E) (before : View E)
  /-- The deferred events a row has moved to the pending queue, as they were
  deferred and in the order in which they will leave it. -/
  | requeued (deferred order : List (Event E))
  /-- An event leaves the pending queue, in which others wait behind it. -/
  | dequeued (event : Event E) (rest : List (Event E)) (before : View E)
  /-- The dispatch of an event from the pending queue has failed. -/
  | failed

/-- The generated core, with the record of its run. -/
structure Core (E : Environment) where
  view : View E
  deferred : List (Event E) := []
  pending : List (Event E) := []
  /-- How many dispatches have begun. -/
  serial : Nat := 0
  /-- What has happened, newest first. -/
  trace : List (Happening E) := []

/-- Generated code: `?` returns with the core as it is. -/
abbrev Effect (E : Environment) := EStateM (Fault E) (Core E)

/-- Records a happening. -/
def Core.note (core : Core E) (happening : Happening E) : Core E :=
  { core with trace := happening :: core.trace }

/-- Changes what rows read. -/
def Core.set (core : Core E) (view : View E) : Core E :=
  { core with view := view }

section Fields

variable (core : Core E) (happening : Happening E) (view : View E)

@[simp] theorem Core.note_view : (core.note happening).view = core.view := rfl

@[simp] theorem Core.note_trace :
    (core.note happening).trace = happening :: core.trace := rfl

@[simp] theorem Core.note_serial :
    (core.note happening).serial = core.serial := rfl

@[simp] theorem Core.set_view : (core.set view).view = view := rfl

@[simp] theorem Core.set_trace : (core.set view).trace = core.trace := rfl

@[simp] theorem Core.set_serial : (core.set view).serial = core.serial := rfl

end Fields

/-- What was added to a record. -/
def news (core core' : Core E) : List (Happening E) :=
  core'.trace.take (core'.trace.length - core.trace.length)

theorem news_of_append {core core' : Core E} {added : List (Happening E)}
    (grown : core'.trace = added ++ core.trace) : news core core' = added := by
  unfold news
  simp [grown]

def note (happening : Happening E) : Effect E Unit :=
  modify fun core => core.note happening

def set_state (place : Slot) (value : StateValue E) : Effect E Unit :=
  modify fun core => core.set (core.view.replace place value)

def set_skip (place : Slot) (token : Bool) : Effect E Unit :=
  modify fun core => core.set (core.view.skip place token)

/-- Goes on with a pure result, or fails with its error. -/
def lift {α : Type} (fault : E.Data → Fault E) : Except E.Data α → Effect E α
  | .ok value => pure value
  | .error error => throw (fault error)

@[simp] theorem lift_ok {α : Type} (fault : E.Data → Fault E) (value : α) :
    lift fault (.ok value) = pure value := rfl

@[simp] theorem lift_error {α : Type} (fault : E.Data → Fault E)
    (error : E.Data) :
    (lift fault (.error error) : Effect E α) = throw (fault error) := rfl

/-- Notes what the failure of a part of the code means. -/
def marking {α : Type} (mark : Fault E → Happening E) (effect : Effect E α) :
    Effect E α :=
  marked (fun fault core => core.note (mark fault)) effect

/-- Notes what a part of the code has done, whichever way it ends. -/
def recording (record : Core E → Happening E) (effect : Effect E Unit) :
    Effect E Unit := do
  marked (fun _ core => core.note (record core)) effect
  modify fun core => core.note (record core)

/-- A part of the code that is only generated or run under a condition. -/
def given (condition : Bool) (effect : Effect E Unit) : Effect E Unit :=
  if condition then effect else pure ()

/-- One call of an action, with the `?` behind it. -/
def call_action (action : E.Ident) (args : List E.Data) : Effect E E.Data := do
  let core ← get
  let (result, world) := E.action action args core.view.world
  modify fun core => core.set { core.view with world := world }
  lift .action_failed result

/-- The value of a guard in a world. -/
def guard_value (args : List E.Data) (world : E.World)
    (guard : GuardExpression E.Ident) : Except E.Data Bool :=
  guard.eval fun name => E.guard name args world

/-- `action_calls`. -/
def action_calls (actions : List E.Ident) (args : List E.Data) :
    Effect E Unit :=
  actions.forM fun action => do
    let _ ← call_action action args

/-- Runs the items of an action sequence and returns what the last plain action
returned. -/
def run_items (args : List E.Data) (items : List (Item E)) : Effect E E.Data :=
  items.foldlM (fun output item =>
      match item with
      | .call action => call_action action args
      | .eval guard action => do
          let core ← get
          let passed ← lift .guard_failed
            (guard_value args core.view.world guard.expression)
          if passed then do
            let _ ← call_action action args
            pure output
          else pure output)
    E.default

/-- `Queue::defer` on a queue of bounded capacity. -/
def defer (capacity : Nat) (event : Event E) : Effect E Unit := do
  let core ← get
  if core.deferred.length < capacity then
    set { core with deferred := core.deferred ++ [event] }
  else throw .queue_full

/-- `Queue::process` on the pending queue. -/
def process (capacity : Nat) (event : Event E) : Effect E Unit := do
  let core ← get
  if core.pending.length < capacity then
    set { core with pending := event :: core.pending }
  else throw .queue_full

end SmlRs.Macros
