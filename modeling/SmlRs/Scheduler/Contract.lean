/-
Module: SmlRs.Scheduler.Contract
Purpose: The strict-ordering contract of `FifoScheduler`, and that no admitted
  event is left behind.
Trusted boundary: none
Main exports: Frame.Active, strict_ordering, strands_nothing
-/
import SmlRs.Scheduler.Dropping
import SmlRs.Scheduler.Invariant

namespace SmlRs.Scheduler

open Utility Lib

variable {M E : Type*} {N : Nat} {machine : SyncMachineStep M E}
  {panics : Prop}

/-- The frame is a drain that has not handed its turn on. -/
def Frame.Active (frame : Frame E) : Prop :=
  ∃ stage, frame.stage = some stage ∧ stage.Owns

/-- The frame is inside `SyncMachineStep::step`. -/
def Frame.Steps (frame : Frame E) : Prop :=
  ∃ drain job ticket, frame = .draining drain (.stepping job ticket)

theorem Frame.Steps.active {frame : Frame E} (steps : frame.Steps) :
    frame.Active := by
  obtain ⟨drain, job, ticket, rfl⟩ := steps
  exact ⟨.stepping job ticket, rfl, trivial⟩

namespace State.Good

variable {s : State M E N}

theorem stepped_ordered (good : s.Good machine panics) :
    s.history.stepped <+: s.history.admitted := by
  have line : s.history.admitted =
      s.history.taken ++ s.queue.entries.map Prod.fst := good.orderly.line
  rw [line]
  exact good.orderly.stepped.trans (List.prefix_append _ _)

theorem stepped_nodup (good : s.Good machine panics) :
    (s.history.stepped.map Job.serial).Nodup :=
  good.sound.nodup.sublist (good.stepped_ordered.sublist.map Job.serial)

theorem taken_nodup (good : s.Good machine panics) :
    s.history.taken.Nodup := by
  have line : s.history.admitted =
      s.history.taken ++ s.queue.entries.map Prod.fst := good.orderly.line
  have nodup : s.history.admitted.Nodup := good.sound.nodup.of_map
  rw [line] at nodup
  exact nodup.of_append_left

/-- A skipped job is not stepped. -/
theorem not_stepped (good : s.Good machine panics) {job : Job E}
    (skipped : s.server.Skipped machine job) : job ∉ s.history.stepped := by
  obtain ⟨-, before, after, taken, stepped⟩ := skipped
  intro member
  have nodup := good.taken_nodup
  rw [show s.history.taken = _ from taken, List.nodup_append] at nodup
  exact nodup.2.2 job (stepped.subset member) job List.mem_cons_self rfl

/-- A step returns at most once for each job. -/
theorem returned_nodup (good : s.Good machine panics) :
    ((s.history.returned.map Prod.fst).map Job.serial).Nodup :=
  good.stepped_nodup.sublist (good.orderly.returned.map Job.serial)

/-- A resolved ticket was resolved with a logged result, of the job it was
issued for. -/
theorem resolution_spec (good : s.Good machine panics)
    {resolution : Resolution E} {ticket : TicketId}
    (logged : resolution ∈ s.history.resolutions)
    (named : resolution.ticket = some ticket) :
    (ticket, resolution.job) ∈ s.history.issued ∧
      (s.tickets ticket).accepted = some resolution.accepted := by
  refine ⟨good.ticketed.named resolution logged ticket named, ?_⟩
  refine (good.ticketed.log ticket resolution.accepted).mpr ⟨resolution.job, ?_⟩
  rw [← named]
  exact logged

/-- What a ticket waits for: its job is queued, in the hands of a drain, or
stranded by a guard. -/
theorem unresolved_spec (good : s.Good machine panics) {ticket : TicketId}
    (issued : ticket < s.nextTicket)
    (unresolved : (s.tickets ticket).accepted = none) :
    ∃ job, (job, ticket) ∈ s.queue.entries ∨
      ∃ c stage, (s.frames c).stage = some stage ∧
        (job, ticket) ∈ stage.pending := by
  have listed : ticket ∈ s.history.issued.map Prod.fst := by
    rw [show s.history.issued.map Prod.fst = _ from good.ticketed.issued]
    exact List.mem_range.mpr issued
  obtain ⟨⟨found, job⟩, member, rfl⟩ := List.mem_map.mp listed
  obtain ⟨place, waits⟩ :=
    (good.ticketed.waits job found).mpr ⟨member, unresolved⟩
  refine ⟨job, ?_⟩
  cases place with
  | none => exact .inl waits
  | some c =>
      right
      cases here : (s.frames c).stage with
      | none =>
          have empty : s.server.waiting (some c) = [] := by
            simp [Server.waiting, Server.places, State.server, here]
          rw [empty] at waits
          cases waits
      | some stage =>
          have pending : s.server.waiting (some c) = stage.pending := by
            simp [Server.waiting, Server.places, State.server, here]
          rw [pending] at waits
          exact ⟨c, stage, here, waits⟩

/-- `offer` finds room wherever it expects some. -/
theorem offer_expected (fits : N ≤ usizeMax) (good : s.Good machine panics)
    {job : Job E} {ticket : TicketId} {waiter : Option WaiterId}
    {queue : FifoQueue E N} {outcome : OfferOutcome E}
    (locked : s.queue.offer job ticket waiter = (queue, outcome)) :
    outcome ≠ .deferFailed ∧
      ∀ older olderTicket, outcome ≠ .drainOlderDeferFailed older olderTicket := by
  have spec := FifoQueue.offer_spec fits good.ring job ticket waiter
  rw [locked] at spec
  cases spec <;> simp

end State.Good

/-- A scheduler of the least capacity. -/
def FifoScheduler.pair : FifoScheduler where
  N := 2
  one_lt := by decide
  power_of_two := ⟨1, rfl⟩
  fits := by decide

/-- A machine that adds up its events and ends at three. A panicking step
leaves it where it was. -/
def tally : SyncMachineStep Nat Nat where
  isTerminated core := decide (3 ≤ core)
  start core := (core, true)
  returns core event after accepted := after = core + event ∧ accepted = true
  panics core _ after := after = core

/-- In every reachable state of a `FifoScheduler` at most one drain is active
and at most one step is in progress, jobs are stepped in the order of their
admission and none twice, the queue stays within its capacity, and `defer`
never fails inside `offer`. -/
theorem strict_ordering (scheduler : FifoScheduler)
    (machine : SyncMachineStep M E) (initial : M)
    {s : State M E scheduler.N}
    (reachable : Reachable machine initial Disciplined s) :
    (∀ c d, (s.frames c).Active → (s.frames d).Active → c = d) ∧
      (∀ c d, (s.frames c).Steps → (s.frames d).Steps → c = d) ∧
      s.history.stepped <+: s.history.admitted ∧
      (s.history.stepped.map Job.serial).Nodup ∧
      s.queue.events.len ≤ scheduler.N ∧
      ∀ job ticket waiter queue outcome,
        s.queue.offer job ticket waiter = (queue, outcome) →
          outcome ≠ .deferFailed ∧
            ∀ older olderTicket,
              outcome ≠ .drainOlderDeferFailed older olderTicket := by
  have good := reachable.good scheduler.fits
  have one : ∀ c d, (s.frames c).Active → (s.frames d).Active → c = d :=
    fun c d first second => good.orderly.exclusive.unique first second
  have bounded : s.queue.events.len ≤ scheduler.N := by
    rw [FifoQueue.Wf.represents good.ring rfl |>.len]
    exact good.ring.length_le
  exact ⟨one, fun c d first second => one c d first.active second.active,
    good.stepped_ordered, good.stepped_nodup, bounded,
    fun job ticket waiter queue outcome locked =>
      good.offer_expected scheduler.fits locked⟩

/-- A step whose action submits to its own machine: the second event waits. -/
theorem strict_ordering_reentrant :
    ∃ s : State Nat Nat 2, (s.frames 0).Steps ∧ s.queue.events.len = 1 ∧
      (∀ c d, (s.frames c).Active → (s.frames d).Active → c = d) ∧
      s.history.stepped <+: s.history.admitted := by
  have reachable := Reachable.start (N := 2) tally 0 Disciplined
    |>.step (.submit (c := 0) 1 rfl) (by simp [Disciplined])
    |>.step (.offer (c := 0) rfl rfl) (by simp [Disciplined])
    |>.step (.beginStep (c := 0) rfl rfl) (by simp [Disciplined])
    |>.step (.submit (c := 1) 2 rfl) (by simp [Disciplined])
    |>.step (.offer (c := 1) rfl rfl) (by simp [Disciplined])
  obtain ⟨one, -, ordered, -⟩ := strict_ordering .pair tally 0 reachable
  exact ⟨_, ⟨_, _, _, rfl⟩, rfl, one, ordered⟩

namespace State.Good

variable {s : State M E N}

/-- Without panics, a line nobody serves is empty and all its tickets are
resolved. -/
theorem idle_resolved (good : s.Good machine False)
    (free : s.queue.draining = false) :
    s.queue.entries = [] ∧
      ∀ ticket < s.nextTicket, (s.tickets ticket).accepted ≠ none := by
  have empty : s.queue.entries = [] :=
    (good.orderly.free free).2.2 (.inr id)
  refine ⟨empty, fun ticket issued unresolved => ?_⟩
  obtain ⟨job, queued | ⟨c, stage, here, pending⟩⟩ :=
    good.unresolved_spec issued unresolved
  · rw [empty] at queued
    cases queued
  · have ok := good.orderly.stages c stage here
    have gone : ¬ stage.Owns := by
      intro owns
      have busy : s.queue.draining = true :=
        good.orderly.exclusive.busy ⟨stage, here, owns⟩
      rw [free] at busy
      cases busy
    cases stage with
    | stranding stranded => exact ok.1.elim id id
    | foreignReading | foreignHanding => cases pending
    | _ => exact gone trivial

/-- Without panics, a ticket gets the acceptance of its own job's step, or
`false` when the machine had ended before. -/
theorem own_result (good : s.Good machine False) {resolution : Resolution E}
    {ticket : TicketId} (logged : resolution ∈ s.history.resolutions)
    (named : resolution.ticket = some ticket) :
    (resolution.job, resolution.accepted) ∈ s.history.returned ∨
      resolution.accepted = false ∧ s.server.closed machine = true ∧
        resolution.job ∉ s.history.stepped := by
  cases good.orderly.verdicts resolution logged with
  | own returned => exact .inl returned
  | skipped rejected skipped =>
      exact .inr ⟨rejected, skipped.1, good.not_stepped skipped⟩
  | refused rejected ticketless =>
      rw [named] at ticketless
      cases ticketless
  | panicked rejected panics => exact panics.elim

end State.Good

/-- The runs that start in a state. -/
abbrev Runs (machine : SyncMachineStep M E) (meets : Label → Prop)
    (s : State M E N) (labels : List Label) (t : State M E N) : Prop :=
  TraceWhere (Step machine) (fun _ label => meets label) s labels t

/-- Dropping a completion whose event was admitted, or whose result is known,
leaves the rest of the run as it would have been: the same schedules, short of
those that poll or drop this completion, and the same history. -/
theorem Step.drop_settled {meets : Label → Prop} {s t : State M E N}
    {c completion : Nat} (lent : s.Lent)
    (drop : Step machine s ⟨c, .drops completion⟩ t)
    (settled : s.Settled completion) :
    (∀ labels u, Runs machine meets s labels u →
      ∃ v, Runs machine meets t
        (labels.filter fun label => !label.concerns completion) v ∧
        v.history = u.history) ∧
    ∀ labels v, Runs machine meets t labels v →
      ∃ u, Runs machine meets s labels u ∧ u.history = v.history := by
  have dropped : t =
      s.dropping completion (fun ticket => (s.tickets ticket).waker) := by
    cases drop with
    | dropRoom here held => exact absurd held settled.not_room
    | dropQueued | dropDone => rfl
  subst dropped
  constructor
  · intro labels u run
    obtain ⟨after, rest⟩ := dropping_run lent settled _ run
    exact ⟨_, rest, rfl⟩
  · intro labels v run
    obtain ⟨u, rest, after, rfl⟩ := of_dropping_run lent settled _ run
    exact ⟨u, rest, rfl⟩

/-- A submission whose waiting completion is dropped is never stepped. -/
theorem Step.drop_room {s t u : State M E N} {c completion waiter : Nat}
    {job : Job E} {meets : Label → Prop} {labels : List Label}
    (fits : N ≤ usizeMax)
    (disciplined : ∀ {label}, meets label → Disciplined label)
    (good : s.Good machine True)
    (drop : Step machine s ⟨c, .drops completion⟩ t)
    (waits : s.completions completion = .held (.room job waiter))
    (run : Runs machine meets t labels u) :
    ∀ stepped ∈ u.history.stepped, stepped.serial ≠ job.serial := by
  have goodT : t.Good machine True :=
    drop.good fits (by simp [Disciplined]) (fun _ => trivial) good
  have holds : s.desk.loose (.inr completion) = [job] := by
    simp [State.desk, State.loose, waits, Completion.loose]
  have dead : t.desk.Dead job.serial := by
    have discarded := good.sound.discarded holds
    cases drop with
    | dropRoom here held =>
        convert discarded using 1
        simp [State.desk, State.loose_completion, Completion.loose]
    | dropQueued here held | dropDone here held =>
        rw [held] at waits
        cases waits
  have later : u.Good machine True ∧ u.desk.Dead job.serial := by
    induction run with
    | nil => exact ⟨goodT, dead⟩
    | snoc _ last before =>
        exact ⟨last.1.good fits (disciplined last.2) (fun _ => trivial) before.1,
          (last.1.desk before.1.lent).dead before.2⟩
  intro stepped member
  exact later.2.unadmitted stepped (later.1.stepped_ordered.subset member)

end SmlRs.Scheduler
