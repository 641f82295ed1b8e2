/-
Module: SmlRs.Scheduler.Closed
Purpose: A machine that has ended, or whose start failed, stays closed under
  either scheduler.
Trusted boundary: none
Main exports: run_closed, State.Good.offer_closed, terminated_stays_closed
-/
import SmlRs.Scheduler.Contract
import SmlRs.Scheduler.Inline

namespace SmlRs.Scheduler

open Utility Lib

variable {M E : Type*} {N : Nat} {machine : SyncMachineStep M E}
  {panics : Prop} {s t : State M E N}

/-- A run from a closed machine neither touches nor steps it. -/
theorem run_closed {labels : List Label} (fits : N ≤ usizeMax)
    (good : s.Good machine True) (closed : s.server.closed machine = true)
    (run : Runs machine Disciplined s labels t) :
    t.Good machine True ∧ t.server.closed machine = true ∧
      t.machine = s.machine ∧ t.history.stepped = s.history.stepped ∧
      t.history.returned = s.history.returned := by
  induction run with
  | nil => exact ⟨good, closed, rfl, rfl, rfl⟩
  | snoc _ last inductionHypothesis =>
      obtain ⟨between, still, core, stepped, returned⟩ := inductionHypothesis
      obtain ⟨-, one⟩ := last.1.refines fits between.ring
      obtain ⟨sameCore, -, sameStepped, sameReturned⟩ :=
        one.closed_stays between.orderly still
      exact ⟨last.1.good fits last.2 (fun _ => trivial) between,
        one.closed_closed between.orderly still, sameCore.trans core,
        sameStepped.trans stepped, sameReturned.trans returned⟩

namespace State.Good

/-- A job that no step was run for has no other result than `false`. -/
theorem rejected (good : s.Good machine panics) {resolution : Resolution E}
    (logged : resolution ∈ s.history.resolutions)
    (unstepped : resolution.job ∉ s.history.stepped) :
    resolution.accepted = false := by
  cases good.orderly.verdicts resolution logged with
  | own returned =>
      have listed := List.mem_map_of_mem (f := Prod.fst) returned
      exact absurd (good.orderly.returned.subset listed) unstepped
  | skipped rejected | refused rejected | panicked rejected => exact rejected

/-- A closed line that nobody serves has recorded that it is closed. -/
theorem closed_idle (good : s.Good machine panics)
    (closed : s.server.closed machine = true)
    (free : s.queue.draining = false) :
    s.queue.terminated = true ∧ s.queue.entries = [] := by
  obtain ⟨same, -, empty⟩ := good.orderly.free free
  have terminated : s.queue.terminated = true := same.trans closed
  exact ⟨terminated, empty (.inl terminated)⟩

/-- `offer` starts no drain on a closed machine, and rejects at once when no
drain is in flight. -/
theorem offer_closed (fits : N ≤ usizeMax) (good : s.Good machine panics)
    (closed : s.server.closed machine = true) {job : Job E} {ticket : TicketId}
    {waiter : Option WaiterId} {queue : FifoQueue E N}
    {outcome : OfferOutcome E}
    (locked : s.queue.offer job ticket waiter = (queue, outcome)) :
    (s.queue.draining = false → outcome = .terminated) ∧
      (outcome = .terminated ∨ outcome = .queued ∨ outcome = .full) := by
  have spec := FifoQueue.offer_spec fits good.ring job ticket waiter
  rw [locked] at spec
  have idle := good.closed_idle closed
  cases spec with
  | terminated => exact ⟨fun _ => rfl, .inl rfl⟩
  | full opened busy =>
      refine ⟨fun free => ?_, .inr (.inr rfl)⟩
      rw [free] at busy
      cases busy
  | queued opened busy =>
      refine ⟨fun free => ?_, .inr (.inl rfl)⟩
      rw [free] at busy
      cases busy
  | drainOlder opened free | drainOwn opened free =>
      have terminated := (idle free).1
      rw [opened] at terminated
      cases terminated

/-- On a closed machine nobody drains, every open ticket is one a guard is just
resolving to `false`. -/
theorem closed_unresolved (good : s.Good machine panics)
    (closed : s.server.closed machine = true)
    (free : s.queue.draining = false) {ticket : TicketId}
    (issued : ticket < s.nextTicket)
    (unresolved : (s.tickets ticket).accepted = none) :
    ∃ c drain handover stranded room job,
      s.frames c = .draining drain (.stranding handover stranded room) ∧
        (job, ticket) ∈ stranded := by
  obtain ⟨job, queued | ⟨c, stage, here, pending⟩⟩ :=
    good.unresolved_spec issued unresolved
  · rw [(good.closed_idle closed free).2] at queued
    cases queued
  · have gone : ¬ stage.Owns := by
      intro owns
      have busy : s.queue.draining = true :=
        good.orderly.exclusive.busy ⟨stage, here, owns⟩
      rw [free] at busy
      cases busy
    cases stage with
    | stranding stranded =>
        cases at_frame : s.frames c with
        | draining drain phase =>
            rw [at_frame] at here
            cases phase with
            | stranding handover list room =>
                cases here
                exact ⟨c, drain, handover, _, room, job, at_frame, pending⟩
            | reading cause | handing cause =>
                cases cause <;> cases here
            | _ => cases here
        | _ =>
            rw [at_frame] at here
            cases here
    | foreignReading | foreignHanding => cases pending
    | _ => exact absurd trivial gone

end State.Good

/-- Under either scheduler, a machine that has ended or failed to start is
never stepped again, stays as it is, and gives every event whose step had not
begun the result `false`. Under `FifoScheduler`, `offer` starts no more drains,
rejects at once when none is in flight, and when none is in flight every ticket
is resolved or about to be resolved to `false` by a guard. -/
theorem terminated_stays_closed (machine : SyncMachineStep M E) (initial : M) :
    (∀ s : InlineState M E, InlineReachable machine initial s →
      s.closed machine = true → ∀ labels t,
        Trace (InlineStep machine) s labels t →
          t.closed machine = true ∧ t.cell = s.cell ∧
            t.stepped = s.stepped ∧
            ∃ later, t.results = s.results ++ later ∧
              ∀ result ∈ later, result.2 = false) ∧
    ∀ (scheduler : FifoScheduler) (s : State M E scheduler.N),
      Reachable machine initial Disciplined s →
        s.server.closed machine = true → ∀ labels t,
          Runs machine Disciplined s labels t →
            t.server.closed machine = true ∧ t.machine = s.machine ∧
              t.history.stepped = s.history.stepped ∧
              (∀ resolution ∈ t.history.resolutions,
                resolution.job ∉ s.history.stepped →
                  resolution.accepted = false) ∧
              (∀ job ticket waiter queue outcome,
                t.queue.offer job ticket waiter = (queue, outcome) →
                  (t.queue.draining = false → outcome = .terminated) ∧
                  (outcome = .terminated ∨ outcome = .queued ∨
                    outcome = .full)) ∧
              (t.queue.draining = false → ∀ ticket < t.nextTicket,
                (t.tickets ticket).accepted = none →
                  ∃ c drain handover stranded room job,
                    t.frames c =
                      .draining drain (.stranding handover stranded room) ∧
                    (job, ticket) ∈ stranded) := by
  constructor
  · intro s reachable closed labels t run
    obtain ⟨cell, stepped, later⟩ :=
      InlineStep.run_closed run reachable.guarded closed
    refine ⟨?_, cell, stepped, later⟩
    rw [InlineState.closed, cell]
    exact closed
  · intro scheduler s reachable closed labels t run
    have fits := scheduler.fits
    obtain ⟨good, still, core, stepped, -⟩ :=
      run_closed fits (reachable.good fits) closed run
    refine ⟨still, core, stepped, ?_, ?_, ?_⟩
    · intro resolution logged unstepped
      rw [← stepped] at unstepped
      exact good.rejected logged unstepped
    · intro job ticket waiter queue outcome locked
      exact good.offer_closed fits still locked
    · intro free ticket issued unresolved
      exact good.closed_unresolved still free issued unresolved

/-- After its third count the machine is not stepped again, whatever follows. -/
theorem terminated_stays_closed_tally :
    ∃ s : State Nat Nat 2, s.machine = 3 ∧ s.history.stepped.length = 1 ∧
      ∀ labels t, Runs tally Disciplined s labels t →
        t.machine = 3 ∧ t.history.stepped.length = 1 := by
  obtain ⟨s, reachable, core, stepped⟩ : ∃ s : State Nat Nat 2,
      Reachable tally 0 Disciplined s ∧ s.machine = 3 ∧
        s.history.stepped.length = 1 :=
    ⟨_, Reachable.start (N := 2) tally 0 Disciplined
      |>.step (.submit (c := 0) 3 rfl) (by simp [Disciplined])
      |>.step (.offer (c := 0) rfl rfl) (by simp [Disciplined])
      |>.step (.beginStep (c := 0) rfl rfl) (by simp [Disciplined])
      |>.step (.stepReturns (c := 0) rfl ⟨rfl, rfl⟩) (by simp [Disciplined]),
      rfl, rfl⟩
  have closed : s.server.closed tally = true := by
    simp [Server.closed, State.server, core, tally]
  refine ⟨s, core, stepped, fun labels t run => ?_⟩
  obtain ⟨-, sameCore, sameStepped, -⟩ := (terminated_stays_closed tally 0).2
    .pair s reachable closed labels t run
  exact ⟨sameCore.trans core, by rw [sameStepped, stepped]⟩

end SmlRs.Scheduler
