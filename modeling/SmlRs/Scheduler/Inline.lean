/-
Module: SmlRs.Scheduler.Inline
Purpose: `InlineScheduler`: every caller runs its event under the machine lock.
Trusted boundary: none
Main exports: InlineCell, InlineState, InlineStep, InlineReachable,
  InlineState.Guarded, InlineStep.closed_stays, InlineStep.run_closed
-/
import SmlRs.Lib.Turn
import SmlRs.Scheduler.Fifo

namespace SmlRs.Scheduler

open Lib

variable {M E : Type*} {machine : SyncMachineStep M E}

/-- Shared storage for an `InlineScheduler` machine. -/
structure InlineCell (M : Type*) where
  machine : M
  /-- False when initialization failed; the handle then accepts nothing. -/
  started : Bool

/-- `cell.started && !machine.is_terminated()`: the event is stepped. -/
def InlineCell.accepts (machine : SyncMachineStep M E) (cell : InlineCell M) :
    Bool :=
  cell.started && !machine.isTerminated cell.machine

/-- Where a caller of `submit` stands. `try_submit` calls `submit`. -/
inductive InlineFrame (E : Type*) where
  | idle
  | locking (job : Job E)
  | stepping (job : Job E)

structure InlineState (M E : Type*) where
  cell : InlineCell M
  /-- Whether a caller holds the machine lock. -/
  held : Bool
  frames : Nat → InlineFrame E
  nextSerial : Nat
  /-- Jobs whose step began, in order. -/
  stepped : List (Job E)
  /-- What `submit` returned, in order. -/
  results : List (Job E × Bool)

namespace InlineState

/-- `InlineScheduler::cell`. -/
def start (machine : SyncMachineStep M E) (initial : M) : InlineState M E :=
  let (core, started) := machine.start initial
  { cell := { machine := core, started := started }
    held := false
    frames := fun _ => .idle
    nextSerial := 0
    stepped := []
    results := [] }

def put (s : InlineState M E) (c : Nat) (frame : InlineFrame E) :
    InlineState M E :=
  { s with frames := Function.update s.frames c frame }

end InlineState

/-- One step of one caller. A caller that holds the lock and submits again
waits for ever: no step unlocks for it. -/
inductive InlineStep (machine : SyncMachineStep M E) (s : InlineState M E) :
    Label → InlineState M E → Prop where
  | submit {c : Nat} (event : E) (idle : s.frames c = .idle) :
      InlineStep machine s ⟨c, .submits⟩
        (({ s with nextSerial := s.nextSerial + 1 } : InlineState M E).put c
          (.locking { event, serial := s.nextSerial }))
  | reject {c : Nat} {job : Job E} (at_lock : s.frames c = .locking job)
      (unlocked : s.held = false)
      (refuses : s.cell.accepts machine = false) :
      InlineStep machine s ⟨c, .advances⟩
        (({ s with results := s.results ++ [(job, false)] } :
          InlineState M E).put c .idle)
  | beginStep {c : Nat} {job : Job E} (at_lock : s.frames c = .locking job)
      (unlocked : s.held = false) (accepts : s.cell.accepts machine = true) :
      InlineStep machine s ⟨c, .advances⟩
        (({ s with
            held := true
            stepped := s.stepped ++ [job] } : InlineState M E).put c
          (.stepping job))
  | stepReturns {c : Nat} {job : Job E} {core : M} {accepted : Bool}
      (at_step : s.frames c = .stepping job)
      (returns : machine.returns s.cell.machine job.event core accepted) :
      InlineStep machine s ⟨c, .advances⟩
        (({ s with
            cell := { s.cell with machine := core }
            held := false
            results := s.results ++ [(job, accepted)] } :
            InlineState M E).put c .idle)
  | stepPanics {c : Nat} {job : Job E} {core : M}
      (at_step : s.frames c = .stepping job)
      (panics : machine.panics s.cell.machine job.event core) :
      InlineStep machine s ⟨c, .panics⟩
        (({ s with
            cell := { s.cell with machine := core }
            held := false } : InlineState M E).put c .idle)

/-- Reachable from construction by any interleaving. -/
def InlineReachable (machine : SyncMachineStep M E) (initial : M)
    (s : InlineState M E) : Prop :=
  ∃ labels, Trace (InlineStep machine) (InlineState.start machine initial)
    labels s

namespace InlineState

/-- The machine accepts nothing any more. -/
def closed (machine : SyncMachineStep M E) (s : InlineState M E) : Bool :=
  !s.cell.started || machine.isTerminated s.cell.machine

/-- The job a caller steps. -/
def stepping (s : InlineState M E) (c : Nat) : Option (Job E) :=
  match s.frames c with
  | .stepping job => some job
  | .idle | .locking _ => none

theorem stepping_put (s : InlineState M E) (c : Nat) (frame : InlineFrame E) :
    (s.put c frame).stepping =
      Function.update s.stepping c
        (match frame with
        | .stepping job => some job
        | .idle | .locking _ => none) := by
  funext other
  by_cases same : other = c
  · subst same
    simp [stepping, put]
  · simp [stepping, put, same]

/-- A step is in progress only under the lock, by one caller, and on a machine
that accepted it. -/
structure Guarded (machine : SyncMachineStep M E) (s : InlineState M E) :
    Prop where
  exclusive : Exclusive (fun _ => True) s.stepping s.held
  opened : s.held = true → s.closed machine = false

theorem accepts_eq_not_closed (s : InlineState M E) :
    s.cell.accepts machine = !s.closed machine := by
  simp [InlineCell.accepts, closed]

theorem Guarded.holds {s : InlineState M E} {c : Nat} {job : Job E}
    (at_step : s.frames c = .stepping job) :
    Holds (fun _ => True) s.stepping c :=
  ⟨job, by simp [stepping, at_step], trivial⟩

/-- Who steps found the machine open. -/
theorem Guarded.opened_of_stepping {s : InlineState M E} {c : Nat}
    {job : Job E} (guarded : s.Guarded machine)
    (at_step : s.frames c = .stepping job) : s.closed machine = false :=
  guarded.opened (guarded.exclusive.busy (Guarded.holds at_step))

end InlineState

variable {s t : InlineState M E} {label : Label}

/-- One step keeps steps under the lock. -/
theorem InlineStep.guarded (step : InlineStep machine s label t)
    (guarded : s.Guarded machine) : t.Guarded machine := by
  cases step with
  | submit event idle | reject at_lock unlocked refuses =>
      refine ⟨?_, guarded.opened⟩
      rw [InlineState.stepping_put]
      exact guarded.exclusive.keep (.inr (by simp))
  | beginStep at_lock unlocked accepts =>
      have nobody : Exclusive (fun _ => True) s.stepping false :=
        unlocked ▸ guarded.exclusive
      refine ⟨?_, fun _ => ?_⟩
      · rw [InlineState.stepping_put]
        exact nobody.acquire
      · rw [InlineState.accepts_eq_not_closed] at accepts
        exact Bool.not_eq_true' _ ▸ accepts
  | stepReturns at_step returns | stepPanics at_step panics =>
      refine ⟨?_, fun locked => by cases locked⟩
      rw [InlineState.stepping_put]
      exact guarded.exclusive.release (InlineState.Guarded.holds at_step)
        (by simp) _

theorem InlineReachable.guarded {initial : M}
    (reachable : InlineReachable machine initial s) : s.Guarded machine := by
  obtain ⟨labels, run⟩ := reachable
  refine run.invariant InlineStep.guarded ⟨?_, fun locked => by cases locked⟩
  constructor
  · rintro c ⟨job, ⟨⟩, -⟩
  · rintro c d ⟨job, ⟨⟩, -⟩

/-- A closed machine is not stepped, stays closed and rejects. -/
theorem InlineStep.closed_stays (step : InlineStep machine s label t)
    (guarded : s.Guarded machine) (closed : s.closed machine = true) :
    t.cell = s.cell ∧ t.stepped = s.stepped ∧
      (t.results = s.results ∨
        ∃ job, t.results = s.results ++ [(job, false)]) := by
  cases step with
  | submit => exact ⟨rfl, rfl, .inl rfl⟩
  | @reject c job => exact ⟨rfl, rfl, .inr ⟨job, rfl⟩⟩
  | beginStep at_lock unlocked accepts =>
      rw [InlineState.accepts_eq_not_closed, closed] at accepts
      cases accepts
  | stepReturns at_step | stepPanics at_step =>
      have opened := guarded.opened_of_stepping at_step
      rw [closed] at opened
      cases opened

/-- A run from a closed machine steps nothing and rejects everything. -/
theorem InlineStep.run_closed {labels : List Label}
    (run : Trace (InlineStep machine) s labels t)
    (guarded : s.Guarded machine) (closed : s.closed machine = true) :
    t.cell = s.cell ∧ t.stepped = s.stepped ∧
      ∃ later, t.results = s.results ++ later ∧
        ∀ result ∈ later, result.2 = false := by
  suffices strong : t.Guarded machine ∧ t.cell = s.cell ∧
      t.stepped = s.stepped ∧ ∃ later, t.results = s.results ++ later ∧
        ∀ result ∈ later, result.2 = false from strong.2
  induction run with
  | nil => exact ⟨guarded, rfl, rfl, [], by simp, by simp⟩
  | @snoc u v _ _ _ last inductionHypothesis =>
      obtain ⟨between, cell, stepped, later, results, rejected⟩ :=
        inductionHypothesis
      have still : u.closed machine = true := by
        rw [InlineState.closed, ← cell] at closed
        exact closed
      obtain ⟨sameCell, sameStepped, grown⟩ := last.closed_stays between still
      refine ⟨last.guarded between, sameCell.trans cell,
        sameStepped.trans stepped, ?_⟩
      rcases grown with same | ⟨job, longer⟩
      · exact ⟨later, same.trans results, rejected⟩
      · refine ⟨later ++ [(job, false)], ?_, ?_⟩
        · rw [longer, results, List.append_assoc]
        · intro result member
          rcases List.mem_append.mp member with old | new
          · exact rejected result old
          · rw [List.mem_singleton.mp new]

end SmlRs.Scheduler
