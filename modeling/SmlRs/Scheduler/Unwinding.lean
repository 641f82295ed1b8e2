/-
Module: SmlRs.Scheduler.Unwinding
Purpose: What the `Unwinding` guard does for a drain whose step panicked, and
  what it does to other drains when the thread unwinds for another reason.
Trusted boundary: none
Main exports: panic_handover, Frame.ForeignGuard, GuardsAlone,
  KeepsQueueOpen, guard_keeps_to_its_drain
-/
import SmlRs.Scheduler.Contract

namespace SmlRs.Scheduler

open Utility Lib

variable {M E : Type*} {N : Nat} {machine : SyncMachineStep M E}

section Panic

variable {s t : State M E N}

/-- No admitted job is lost: it was stepped, waits in the queue, is about to be
stepped, or was skipped because the machine is closed. -/
theorem State.Good.accounted (good : s.Good machine True) {job : Job E}
    (admitted : job ∈ s.history.admitted) :
    job ∈ s.history.stepped ∨ (∃ ticket, (job, ticket) ∈ s.queue.entries) ∨
      (∃ c ticket terminated,
        (s.frames c).stage = some (.running job ticket terminated)) ∨
      s.server.closed machine = true ∧ job ∉ s.history.stepped := by
  by_cases stepped : job ∈ s.history.stepped
  · exact .inl stepped
  have line : s.history.admitted =
      s.history.taken ++ s.queue.entries.map Prod.fst := good.orderly.line
  rw [line, List.mem_append] at admitted
  rcases admitted with taken | queued
  · cases closed : s.server.closed machine with
    | true => exact .inr (.inr (.inr ⟨rfl, stepped⟩))
    | false =>
        -- On an open machine only the owner's next job is taken and not
        -- stepped.
        cases busy : s.queue.draining with
        | false =>
            obtain ⟨same, all, -⟩ := good.orderly.free busy
            have whole : s.history.stepped = s.history.taken :=
              all (same.trans closed)
            rw [whole] at stepped
            exact absurd taken stepped
        | true =>
            obtain ⟨c, stage, here, owns⟩ := good.orderly.manned id busy
            have ok := good.orderly.stages c stage here
            have caught : s.history.stepped = s.history.taken → False := by
              intro whole
              rw [whole] at stepped
              exact stepped taken
            cases stage with
            | running next ticket terminated =>
                obtain ⟨same, -, before, parts, -, all⟩ := ok
                have before_eq : s.history.stepped = before :=
                  all (same.trans closed)
                have split : s.history.taken = before ++ [next] := parts
                rw [split, ← before_eq, List.mem_append,
                  List.mem_singleton] at taken
                rcases taken with earlier | rfl
                · exact absurd earlier stepped
                · exact .inr (.inr (.inl ⟨c, ticket, terminated, here⟩))
            | stepping => exact (caught ok.2.2.1).elim
            | resolving next ticket accepted terminated =>
                exact (caught (ok.2.1 (ok.1.trans closed)).2).elim
            | looping terminated =>
                exact (caught (ok.2 (ok.1.trans closed)).2).elim
            | panicked | reading => exact (caught ok.2.2.2.1).elim
            | handing => exact (caught ok.2.2.2.1).elim
            | stranding | foreignReading | foreignHanding => exact owns.elim
  · obtain ⟨⟨other, ticket⟩, member, rfl⟩ := List.mem_map.mp queued
    exact .inr (.inl ⟨ticket, member⟩)

/-- The critical section of the guard of a drain whose step panicked. -/
theorem State.Good.hands (fits : N ≤ usizeMax) (good : s.Good machine True)
    {c : Nat} {drain : Drain E} {job : Job E} {ticket : Option TicketId}
    {terminated : Bool}
    (at_guard : s.frames c =
      .draining drain (.handing (.ownStep job ticket) terminated))
    (step : Step machine s ⟨c, .advances⟩ t) :
    t.queue.draining = false ∧ t.queue.room = [] ∧
      s.history.stepped = s.history.taken ∧
      (t.server.closed machine = false → t.queue.entries = s.queue.entries) ∧
      (t.server.closed machine = true → t.queue.entries = []) ∧
      ∃ handover stranded,
        t.frames c = .draining drain
          (.stranding handover stranded s.queue.room) ∧
        handover.cause = .ownStep job ticket ∧
        handover.terminated = t.server.closed machine ∧
        handover.behind = s.queue.entries ∧
        handover.registered = s.queue.room.map fun waiter =>
          (waiter, (s.waiters waiter).polls) := by
  obtain ⟨-, started, opened, stepped, -, read⟩ :=
    good.orderly.stages c _ (State.stage_of at_guard)
  cases step with
  | @guardHands c drain' cause terminated' queue stranded room here locked =>
      cases here.symm.trans at_guard
      have spec := FifoQueue.unwind_spec fits good.ring terminated
      have registered := FifoQueue.unwind_room s.queue terminated
      rw [locked] at spec registered
      have sameRoom : room = s.queue.room := registered
      have closed : (s.queue.terminated || terminated) =
          s.server.closed machine := by
        rw [show s.queue.terminated = false from opened, Bool.false_or, read]
        simp [Server.closed, started]
      have entries := spec.entries
      subst sameRoom
      refine ⟨spec.draining, spec.room, stepped, fun still => ?_,
        fun ended => ?_, _, stranded, Function.update_self _ _ _, rfl,
        spec.terminated.trans closed, rfl, rfl⟩
      · rw [spec.stranded_nil (closed.trans still), List.nil_append] at entries
        exact entries
      · exact spec.entries_nil (closed.trans ended)
  | _ =>
      rename_i here
      cases here.symm.trans at_guard

/-- The panic has left its drain's guard. -/
theorem State.Good.unwound (good : s.Good machine True) {c : Nat}
    {drain : Drain E} {handover : Handover E} {job : Job E}
    {ticket : Option TicketId}
    (at_rouse : s.frames c = .draining drain (.rousing handover []))
    (own : handover.cause = .ownStep job ticket) :
    (∀ ownTicket, ticket = some ownTicket →
      (s.tickets ownTicket).accepted = some false) ∧
    (∀ entry ∈ handover.registered,
      entry.2 ≤ (s.waiters entry.1).woken) ∧
    (handover.terminated = true → ∀ entry ∈ handover.behind,
      (s.tickets entry.2).accepted = some false ∧
        entry.1 ∉ s.history.stepped) := by
  obtain ⟨rejected, wakes, strands⟩ := good.handed.phases c _ _ at_rouse
  refine ⟨?_, fun entry member => ?_, fun ended entry member => ?_⟩
  · rw [own] at rejected
    exact rejected
  · rcases (wakes entry member).2 with listed | woken
    · cases listed
    · exact woken
  · obtain ⟨skipped, listed | resolved⟩ := strands ended entry member
    · cases listed
    · exact ⟨resolved, good.not_stepped skipped⟩

/-- Whoever drains while a guard finishes is somebody else. -/
theorem State.Good.other_drains (good : s.Good machine True) {c : Nat}
    (done : ¬ (s.frames c).Active) (busy : s.queue.draining = true) :
    ∃ d, d ≠ c ∧ (s.frames d).Active := by
  obtain ⟨d, active⟩ := good.orderly.manned id busy
  refine ⟨d, ?_, active⟩
  rintro rfl
  exact done active

/-- What is queued when a guard hands the turn on comes before everything that
is admitted later. -/
theorem State.Good.handed_order {u : State M E N} {labels : List Label}
    (fits : N ≤ usizeMax) (good : s.Good machine True)
    (run : Runs machine Disciplined s labels u) :
    ∃ later, u.history.admitted =
      s.history.taken ++ s.queue.entries.map Prod.fst ++ later ∧
        u.history.stepped <+: u.history.admitted := by
  have line : s.history.admitted =
      s.history.taken ++ s.queue.entries.map Prod.fst := good.orderly.line
  suffices strong : u.Good machine True ∧
      s.history.admitted <+: u.history.admitted by
    obtain ⟨later, grown⟩ := strong.2
    exact ⟨later, by rw [← grown, line], strong.1.stepped_ordered⟩
  induction run with
  | nil => exact ⟨good, List.prefix_rfl⟩
  | snoc _ last inductionHypothesis =>
      obtain ⟨between, grown⟩ := inductionHypothesis
      obtain ⟨-, one⟩ := last.1.refines fits between.ring
      exact ⟨last.1.good fits last.2 (fun _ => trivial) between,
        grown.trans one.grows.admitted⟩

end Panic

/-- When a step panics, its drain's guard hands the turn on: it clears
`draining` and the room list under the queue lock and leaves the queued events
in their order, or takes all of them out when the machine has ended. When the
panic leaves the call, the panicking event's ticket and every event taken out
are resolved to `false`, every waiter registered at that moment has been woken,
and whoever drains then is another caller. Events queued at that moment come
before all that are admitted later, no event is stepped twice, and none is
lost. -/
theorem panic_handover (scheduler : FifoScheduler)
    (machine : SyncMachineStep M E) (initial : M)
    {s : State M E scheduler.N}
    (reachable : Reachable machine initial Disciplined s) :
    (∀ c drain job ticket terminated t,
      s.frames c =
        .draining drain (.handing (.ownStep job ticket) terminated) →
      Step machine s ⟨c, .advances⟩ t →
        t.queue.draining = false ∧ t.queue.room = [] ∧
        s.history.stepped = s.history.taken ∧
        (t.server.closed machine = false →
          t.queue.entries = s.queue.entries) ∧
        (t.server.closed machine = true → t.queue.entries = []) ∧
        (∃ handover stranded,
          t.frames c = .draining drain
            (.stranding handover stranded s.queue.room) ∧
          handover.cause = .ownStep job ticket ∧
          handover.terminated = t.server.closed machine ∧
          handover.behind = s.queue.entries ∧
          handover.registered = s.queue.room.map fun waiter =>
            (waiter, (s.waiters waiter).polls)) ∧
        ∀ labels u, Runs machine Disciplined t labels u →
          ∃ later, u.history.admitted =
            s.history.taken ++ s.queue.entries.map Prod.fst ++ later ∧
            u.history.stepped <+: u.history.admitted) ∧
    (∀ c drain handover job ticket,
      s.frames c = .draining drain (.rousing handover []) →
      handover.cause = .ownStep job ticket →
        (∀ own, ticket = some own →
          (s.tickets own).accepted = some false) ∧
        (∀ entry ∈ handover.registered,
          entry.2 ≤ (s.waiters entry.1).woken) ∧
        (handover.terminated = true → ∀ entry ∈ handover.behind,
          (s.tickets entry.2).accepted = some false ∧
            entry.1 ∉ s.history.stepped) ∧
        (s.queue.draining = true → ∃ d, d ≠ c ∧ (s.frames d).Active)) ∧
    (s.history.stepped.map Job.serial).Nodup ∧
    ∀ job ∈ s.history.admitted,
      job ∈ s.history.stepped ∨
      (∃ ticket, (job, ticket) ∈ s.queue.entries) ∨
      (∃ c ticket terminated,
        (s.frames c).stage = some (.running job ticket terminated)) ∨
      s.server.closed machine = true ∧ job ∉ s.history.stepped := by
  have fits := scheduler.fits
  have good := reachable.good fits
  refine ⟨?_, ?_, good.stepped_nodup, fun job => good.accounted⟩
  · intro c drain job ticket terminated t at_guard step
    obtain ⟨draining, room, stepped, kept, emptied, recorded⟩ :=
      good.hands fits at_guard step
    refine ⟨draining, room, stepped, kept, emptied, recorded, ?_⟩
    intro labels u run
    exact good.handed_order fits
      (Trace.cons ⟨step, by simp [Disciplined]⟩ run)
  · intro c drain handover job ticket at_rouse own
    obtain ⟨rejected, woken, stranded⟩ := good.unwound at_rouse own
    refine ⟨rejected, woken, stranded, good.other_drains ?_⟩
    rw [at_rouse]
    rintro ⟨stage, ⟨⟩, -⟩

/-- A step panics with another event queued behind it. -/
theorem panic_handover_queued :
    ∃ s : State Nat Nat 2, s.queue.draining = false ∧
      s.queue.events.len = 1 ∧
      (s.history.stepped.map Job.serial).Nodup ∧
      ∀ job ∈ s.history.admitted, job ∈ s.history.stepped ∨
        (∃ ticket, (job, ticket) ∈ s.queue.entries) ∨
        (∃ c ticket terminated,
          (s.frames c).stage = some (.running job ticket terminated)) ∨
        s.server.closed tally = true ∧ job ∉ s.history.stepped := by
  have reachable := Reachable.start (N := 2) tally 0 Disciplined
    |>.step (.submit (c := 0) 1 rfl) (by simp [Disciplined])
    |>.step (.offer (c := 0) rfl rfl) (by simp [Disciplined])
    |>.step (.beginStep (c := 0) rfl rfl) (by simp [Disciplined])
    |>.step (.submit (c := 1) 2 rfl) (by simp [Disciplined])
    |>.step (.offer (c := 1) rfl rfl) (by simp [Disciplined])
    |>.step (.stepPanics (c := 0) rfl rfl) (by simp [Disciplined])
    |>.step (.pendingDrop (c := 0) rfl) (by simp [Disciplined])
    |>.step (.guardReads (c := 0) rfl rfl) (by simp [Disciplined])
    |>.step (.guardHands (c := 0) rfl rfl) (by simp [Disciplined])
  obtain ⟨-, -, once, accounted⟩ := panic_handover .pair tally 0 reachable
  exact ⟨_, rfl, rfl, once, accounted⟩

section Foreign

/-- The cause for which a guard acts. -/
def Phase.guard : Phase E → Option (Cause E)
  | .reading cause | .handing cause _ => some cause
  | .stranding handover _ _ | .rousing handover _ => some handover.cause
  | .running .. | .stepping .. | .resolving .. | .looping _ | .waking ..
  | .finishing _ | .dropping | .panicked .. => none

/-- The guard of a drain whose own steps all returned acts. -/
def Frame.ForeignGuard (frame : Frame E) : Prop :=
  ∃ drain phase returning, frame = .draining drain phase ∧
    phase.guard = some (.foreign returning)

/-- When such a guard takes the queue lock, nobody drains. -/
def GuardsAlone (s : State M E N) (label : Label) : Prop :=
  ∀ drain returning terminated, s.frames label.caller =
    .draining drain (.handing (.foreign returning) terminated) →
      s.queue.draining = false

/-- A step leaves `draining`, `terminated` and the room list alone. -/
def KeepsQueueOpen (s t : State M E N) : Prop :=
  t.queue.draining = s.queue.draining ∧
    t.queue.terminated = s.queue.terminated ∧ t.queue.room = s.queue.room

variable {s t : State M E N}

theorem GuardsAlone.harmless {label : Label} (alone : GuardsAlone s label) :
    s.server.Harmless label := by
  intro terminated here
  cases at_frame : s.frames label.caller with
  | draining drain phase =>
      have at_stage : phase.stage = some (.foreignHanding terminated) := by
        rw [← here, State.stage_of at_frame]
        rfl
      cases phase with
      | handing cause read =>
          cases cause with
          | ownStep => cases at_stage
          | foreign returning => exact alone drain returning read at_frame
      | reading cause => cases cause <;> cases at_stage
      | _ => cases at_stage
  | _ =>
      rw [State.stage_of at_frame] at here
      cases here

/-- Waiters register only while somebody drains. -/
theorem Step.room {label : Label} (fits : N ≤ usizeMax)
    (step : Step machine s label t) (ring : s.RingOk)
    (empty : s.queue.draining = false → s.queue.room = []) :
    t.queue.draining = false → t.queue.room = [] := by
  intro free
  cases step with
  | @offer c caller job queue outcome here locked =>
      have spec :=
        FifoQueue.offer_spec fits ring job s.nextTicket caller.waiter
      rw [locked] at spec
      cases spec with
      | terminated => exact empty free
      | full opened busy atCapacity registered =>
          have still : queue.draining = false := free
          rw [show queue = _ from registered, FifoQueue.register_draining,
            busy] at still
          cases still
      | queued opened busy wf entries draining =>
          exact absurd (draining.symm.trans free) (by simp)
      | drainOlder opened free' front wf entries draining =>
          exact absurd (draining.symm.trans free) (by simp)
      | drainOwn => cases free
  | @loop c drain terminated queue next room here locked =>
      have spec := FifoQueue.drainNext_spec fits ring terminated
      rw [locked] at spec
      cases spec with
      | next front wf draining closed cleared => exact cleared
      | done none wf entries draining closed cleared => exact cleared
  | @guardHands c drain cause terminated queue stranded room here locked =>
      have spec := FifoQueue.unwind_spec fits ring terminated
      rw [locked] at spec
      exact spec.room
  | dropRoom | polledDone | polledQueued =>
      have none : s.queue.room = [] := empty free
      simp [FifoQueue.forget, State.put, State.hold, none]
  | _ => exact empty free

/-- What holds in every state of a run in which such guards act alone. -/
structure State.Alone (machine : SyncMachineStep M E) (s : State M E N) :
    Prop where
  ring : s.RingOk
  orderly : s.server.Orderly machine ⟨True, True⟩
  room : s.queue.draining = false → s.queue.room = []

theorem Step.alone {label : Label} (fits : N ≤ usizeMax)
    (step : Step machine s label t) (met : GuardsAlone s label)
    (alone : s.Alone machine) : t.Alone machine := by
  obtain ⟨ring, one⟩ := step.refines fits alone.ring
  exact
    { ring := ring
      orderly := one.orderly
        ⟨fun _ => trivial, fun _ => trivial, met.harmless⟩ alone.orderly
      room := step.room fits alone.ring alone.room }

/-- Such a guard leaves the queue's flags and the room list alone exactly when
nobody drains at that moment. -/
theorem State.Alone.keeps_iff {label : Label} (fits : N ≤ usizeMax)
    (alone : s.Alone machine) (guard : (s.frames label.caller).ForeignGuard)
    (step : Step machine s label t) :
    KeepsQueueOpen s t ↔ GuardsAlone s label := by
  obtain ⟨drain, phase, returning, at_guard, is_foreign⟩ := guard
  cases step with
  | @guardHands c drain' cause terminated queue stranded room here locked =>
      cases here.symm.trans at_guard
      cases is_foreign
      have spec := FifoQueue.unwind_spec fits alone.ring terminated
      rw [locked] at spec
      constructor
      · rintro ⟨draining, -⟩ _ _ _ _
        exact draining.symm.trans spec.draining
      · intro met
        have free : s.queue.draining = false :=
          met drain returning terminated at_guard
        obtain ⟨same, -⟩ := alone.orderly.free free
        obtain ⟨-, read⟩ :=
          alone.orderly.stages c _ (State.stage_of at_guard)
        refine ⟨spec.draining.trans free.symm, ?_,
          spec.room.trans (alone.room free).symm⟩
        refine spec.terminated.trans ?_
        cases terminated with
        | false => exact Bool.or_false _
        | true =>
            have ended : s.queue.terminated = true := same.trans (read rfl)
            rw [ended, Bool.true_or]
  | guardReads here | strand here | stranded here | rouse here
  | rousedReturning here | unwound here | unwoundPoll here =>
      refine iff_of_true ⟨rfl, rfl, rfl⟩ fun _ _ _ at_hands => ?_
      cases here.symm.trans at_hands
  | pollDone here | pollQueued _ here | pollRoom _ here | dropRoom here
  | dropQueued here | dropDone here | submit _ here | trySubmit _ here
  | offer here | returnDone here | returnQueued here | returnRoom here
  | returnFull here | polledRoom here | polledDone here | polledQueued here
  | pollTicket here =>
      cases here.symm.trans at_guard
  | skip here | beginStep here | stepReturns here | stepPanics here
  | resolve here | loop here | wakeNext here | runNext here | wakeLast here
  | finish here | guardReturns here | guardActs here | wakerPanics here
  | lastWakerPanics here | pendingDrop here =>
      cases here.symm.trans at_guard
      cases is_foreign

/-- As long as the guards of drains whose steps all returned act only while
nobody drains, at most one drain is active, and such a guard leaves `draining`,
`terminated` and the room list alone; and it does so only then. -/
theorem guard_keeps_to_its_drain (scheduler : FifoScheduler)
    (machine : SyncMachineStep M E) (initial : M)
    {s : State M E scheduler.N} {labels : List Label}
    (run : TraceWhere (Step machine) GuardsAlone
      (State.cell machine initial) labels s) :
    (∀ c d, (s.frames c).Active → (s.frames d).Active → c = d) ∧
      ∀ label t, (s.frames label.caller).ForeignGuard →
        Step machine s label t →
          (KeepsQueueOpen s t ↔ GuardsAlone s label) := by
  have alone : s.Alone machine := by
    induction run with
    | nil =>
        exact ⟨State.cell_ringOk initial, State.cell_orderly machine initial,
          fun _ => rfl⟩
    | snoc _ last inductionHypothesis =>
        exact last.1.alone scheduler.fits last.2 inductionHypothesis
  exact ⟨fun c d first second => alone.orderly.exclusive.unique first second,
    fun label t guard step => alone.keeps_iff scheduler.fits guard step⟩

/-- A submission made while its thread unwinds, with nobody else around: the
guard acts, and there is nothing for it to do. -/
theorem guard_keeps_to_its_drain_alone :
    ∃ s : State Nat Nat 2, (s.frames 0).ForeignGuard ∧
      ∀ label t, (s.frames label.caller).ForeignGuard →
        Step tally s label t →
          (KeepsQueueOpen s t ↔ GuardsAlone s label) := by
  obtain ⟨labels, s, run, guard⟩ : ∃ labels, ∃ s : State Nat Nat 2,
      TraceWhere (Step tally) GuardsAlone (State.cell tally 0) labels s ∧
        (s.frames 0).ForeignGuard := by
    refine ⟨_, _, Trace.nil
      |>.snoc ⟨.submit (c := 0) 1 rfl, ?_⟩
      |>.snoc ⟨.offer (c := 0) rfl rfl, ?_⟩
      |>.snoc ⟨.beginStep (c := 0) rfl rfl, ?_⟩
      |>.snoc ⟨.stepReturns (c := 0) rfl ⟨rfl, rfl⟩, ?_⟩
      |>.snoc ⟨.resolve (c := 0) rfl, ?_⟩
      |>.snoc ⟨.loop (c := 0) rfl rfl, ?_⟩
      |>.snoc ⟨.finish (c := 0) rfl, ?_⟩
      |>.snoc ⟨.guardActs (c := 0) rfl, ?_⟩
      |>.snoc ⟨.guardReads (c := 0) rfl rfl, ?_⟩, _, _, _, rfl, rfl⟩ <;>
      rintro _ _ _ ⟨⟩
  exact ⟨s, guard, (guard_keeps_to_its_drain .pair tally 0 run).2⟩

/-- The guard does not look whose drain it is. Caller 0 submits while its
thread unwinds; its drain finishes and releases the turn, caller 1 takes it,
the guard of caller 0 clears `draining`, and caller 2 drains beside
caller 1. -/
theorem guard_frees_another_drain :
    ¬ ∀ s : State Nat Nat 2, Reachable tally 0 (fun _ => True) s →
      (∀ c d, (s.frames c).Active → (s.frames d).Active → c = d) ∧
        ∀ label t, (s.frames label.caller).ForeignGuard →
          Step tally s label t → KeepsQueueOpen s t := by
  intro claim
  have reachable := Reachable.start (N := 2) tally 0 (fun _ => True)
    |>.step (.submit (c := 0) 1 rfl) trivial
    |>.step (.offer (c := 0) rfl rfl) trivial
    |>.step (.beginStep (c := 0) rfl rfl) trivial
    |>.step (.stepReturns (c := 0) rfl ⟨rfl, rfl⟩) trivial
    |>.step (.resolve (c := 0) rfl) trivial
    |>.step (.loop (c := 0) rfl rfl) trivial
    |>.step (.finish (c := 0) rfl) trivial
    |>.step (.submit (c := 1) 1 rfl) trivial
    |>.step (.offer (c := 1) rfl rfl) trivial
    |>.step (.guardActs (c := 0) rfl) trivial
    |>.step (.guardReads (c := 0) rfl rfl) trivial
    |>.step (.guardHands (c := 0) rfl rfl) trivial
    |>.step (.submit (c := 2) 1 rfl) trivial
    |>.step (.offer (c := 2) rfl rfl) trivial
  obtain ⟨one, -⟩ := claim _ reachable
  have same := one 1 2 ⟨_, rfl, trivial⟩ ⟨_, rfl, trivial⟩
  cases same

end Foreign

end SmlRs.Scheduler
