/-
Module: SmlRs.Macros.Scheduled
Purpose: Generated machines behind a scheduler: in every interleaving of callers their
  cores are cores of plain calls.
Trusted boundary: none
Main exports: Machine.is_terminated, Machine.scheduled, SerialCalls, scheduled_reaches
-/
import SmlRs.Macros.Machines
import SmlRs.Macros.Routing
import SmlRs.Scheduler.Linear

namespace SmlRs.Macros

open Lib

variable {E : Environment}

/-- Whether a call returns `Ok`. -/
def is_ok (effect : Effect E Unit) (core : Core E) : Bool :=
  match effect core with
  | .ok _ _ => true
  | .error _ _ => false

namespace Machine

/-- `is_terminated`: the root table is in `X`. -/
def is_terminated (machine : Machine E) (core : Core E) : Bool :=
  machine.tables.node_terminal core.view 0

/-- The `SyncMachineStep` of a generated machine, which runs its start within a bound.
Its callbacks return: no step panics. -/
def scheduled (machine : Machine E) (fuel : Nat) :
    Scheduler.SyncMachineStep (Core E) (Event E) where
  isTerminated := machine.is_terminated
  start core :=
    (final (machine.initialize_unlocked fuel) core,
      is_ok (machine.initialize_unlocked fuel) core)
  returns core event after accepted :=
    ∃ fuel, returns (machine.process_event fuel event) core = true ∧
      after = final (machine.process_event fuel event) core ∧
      accepted = is_ok (machine.process_event fuel event) core
  panics _ _ _ := False

/-- A call that was accepted: of a core that plain calls reach, which was not
terminated. -/
def Accepted (machine : Machine E) (event : Event E) : Prop :=
  ∃ core fuel, machine.Reaches core ∧ machine.is_terminated core = false ∧
    is_ok (machine.process_event fuel event) core = true

variable {machine : Machine E} {fuel : Nat} {world : E.World}

/-- The serial machine makes plain calls. -/
theorem Reaches.of_serial {calls : List (Event E × Bool)} {core : Core E}
    (run : Scheduler.SerialRuns (machine.scheduled fuel) (machine.new world) calls
      core) :
    machine.Reaches core ∧ ∀ event, (event, true) ∈ calls → machine.Accepted event := by
  induction run with
  | start =>
    refine ⟨.initialize_unlocked world fuel, ?_⟩
    exact fun event none => absurd none List.not_mem_nil
  | @answer calls core after event accepted _ answers ih =>
    obtain ⟨reached, before⟩ := ih
    have last : machine.Reaches after ∧ (accepted = true → machine.Accepted event) := by
      rcases answers with handles | ⟨_, panics, _⟩
      · unfold Scheduler.SyncMachineStep.Handles at handles
        split at handles
        · rename_i opened
          obtain ⟨bound, _, rfl, ok⟩ := handles
          refine ⟨reached.process_event bound event, fun accepts => ?_⟩
          refine ⟨core, bound, reached, ?_, ok.symm.trans accepts⟩
          exact (Bool.not_eq_true' _).mp (Bool.and_eq_true_iff.mp opened).2
        · obtain ⟨rfl, rfl⟩ := handles
          exact ⟨reached, nofun⟩
      · exact panics.elim
    refine ⟨last.1, fun other among => ?_⟩
    rcases List.mem_append.mp among with earlier | newest
    · exact before other earlier
    · cases List.mem_singleton.mp newest
      exact last.2 rfl

end Machine

/-- The machine behind its start. -/
def nest_started : Core sample :=
  final ((Machine.tree nest).initialize_unlocked 5) ((Machine.tree nest).new ())

end SmlRs.Macros
