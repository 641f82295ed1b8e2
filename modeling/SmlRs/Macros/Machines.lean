/-
Module: SmlRs.Macros.Machines
Purpose: Generated machines of either kind, and the cores a user can bring them
  into.
Trusted boundary: none
Main exports: Machine, Machine.process_event, Machine.Reaches, Machine.accepts,
  Machine.run_event_idle, returns, Machine.process_event_async
-/
import SmlRs.Macros.Accepts

namespace SmlRs.Macros

open Lib

variable {E : Environment}

/-- A generated machine. -/
inductive Machine (E : Environment) where
  | flat (code : Flat E)
  | tree (code : Tree E)

namespace Machine

def tables : Machine E → Tables E
  | .flat code => code.tables
  | .tree code => code.toTables

def process_event : Machine E → Nat → Event E → Effect E Unit
  | .flat code => code.process_event
  | .tree code => code.process_event

/-- One event, for calls that are nested in it. -/
def run_event : Machine E → Calls E → Event E → Effect E Unit
  | .flat code => code.run_event
  | .tree code => code.run_event

/-- The loop over the pending queue. -/
def run_pending : Machine E → Calls E → Nat → Effect E Unit
  | .flat code => code.run_pending
  | .tree code => code.run_pending

def initial_entries : Machine E → Effect E Unit
  | .flat code => code.initial_entries
  | .tree code => code.initial_entries

def initialize_unlocked : Machine E → Nat → Effect E Unit
  | .flat code => code.initialize_unlocked
  | .tree code => code.initialize_unlocked

def new (machine : Machine E) (world : E.World) : Core E :=
  machine.tables.new world

/-- The cores a user can bring a machine into. -/
inductive Reaches (machine : Machine E) : Core E → Prop where
  | new (world : E.World) : Reaches machine (machine.new world)
  | initialize_unlocked (world : E.World) (fuel : Nat) :
      Reaches machine
        (final (machine.initialize_unlocked fuel) (machine.new world))
  | process_event {core : Core E} (reached : Reaches machine core) (fuel : Nat)
      (event : Event E) :
      Reaches machine (final (machine.process_event fuel event) core)
  | context {core : Core E} (reached : Reaches machine core) (world : E.World) :
      Reaches machine (core.set { core.view with world := world })

end Machine

/-- Whether a run ends before the bound of the model cuts it short. -/
def returns (effect : Effect E Unit) (core : Core E) : Bool :=
  match effect core with
  | .error .diverged _ => false
  | _ => true

section Asynchronous

variable {machine : Machine E}

/-- A call of an asynchronous machine puts its event in front of what waits. -/
theorem Machine.process_event_async (async : machine.tables.async_queue = true)
    (fuel : Nat) (event : Event E) :
    machine.process_event (fuel + 1) event =
      (process machine.tables.capacity event >>= fun _ =>
        machine.run_pending ⟨machine.process_event fuel, fuel⟩ fuel) := by
  cases machine with
  | flat code => exact if_pos async
  | tree code => exact if_pos async

theorem Machine.run_pending_zero (calls : Calls E) (core : Core E) :
    machine.run_pending calls 0 core = .error .diverged core := by
  cases machine <;> rfl

theorem Machine.run_pending_succ (calls : Calls E) (fuel : Nat) (core : Core E) :
    machine.run_pending calls (fuel + 1) core =
      match core.pending with
      | [] => .ok () core
      | event :: rest =>
          (marking (fun _ => .failed) (machine.run_event calls event) >>=
            fun _ => machine.run_pending calls fuel)
              ({ core with pending := rest }.note
                (.dequeued event rest core.view)) := by
  cases machine with
  | flat code =>
    show Flat.run_pending code calls (fuel + 1) core = _
    unfold Flat.run_pending
    rw [get_bind_run]
    cases core.pending <;> rfl
  | tree code =>
    show Tables.run_pending code.toTables calls (fuel + 1) core = _
    unfold Tables.run_pending
    rw [get_bind_run]
    cases core.pending <;> rfl

end Asynchronous

section Synchronous

variable {machine : Machine E}

theorem Machine.process_event_sync (sync : machine.tables.async_queue = false)
    (fuel : Nat) (event : Event E) :
    machine.process_event (fuel + 1) event =
      machine.run_event ⟨machine.process_event fuel, fuel⟩ event := by
  cases machine with
  | flat code => exact if_neg (ne_true_of_eq_false sync)
  | tree code => exact if_neg (ne_true_of_eq_false sync)

theorem Machine.process_event_zero (event : Event E) (core : Core E) :
    machine.process_event 0 event core = .error .diverged core := by
  cases machine <;> rfl

end Synchronous

/-! ### Events that find no row -/

/-- The policy lets an event through, and there is an active row for it whose
condition is true or cannot be evaluated. -/
def Machine.accepts : Machine E → Event E → View E → Prop
  | .flat code => code.accepts
  | .tree code => code.accepts

/-- An event that is not accepted is rejected, and nothing else happens. -/
theorem Machine.run_event_idle {machine : Machine E} {calls : Calls E}
    {event : Event E} {core : Core E}
    (unheard : ¬ machine.accepts event core.view) :
    ∃ fault core', machine.run_event calls event core = .error fault core' ∧
      fault.rejection = true ∧ Idle core core' := by
  cases machine with
  | flat code => exact code.run_event_idle unheard
  | tree code =>
    obtain ⟨core', run, idle⟩ := tree_run_event_idle unheard
    exact ⟨.invalid_event, core', run, rfl, idle⟩

end SmlRs.Macros
