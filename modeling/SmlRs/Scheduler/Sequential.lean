/-
Module: SmlRs.Scheduler.Sequential
Purpose: Calls that do not overlap: both schedulers answer them as one machine
  does that handles an event at a time.
Trusted boundary: none
Main exports: SyncMachineStep.Handles, SequentialRuns, InlineRuns, FifoRuns,
  schedulers_refine
-/
import SmlRs.Scheduler.Inline

namespace SmlRs.Scheduler

open Lib Utility

variable {M E : Type*} {N : Nat}

/-! ### The sequential machine -/

/-- What the sequential machine does with an event: it steps where `start`
succeeded and the machine has not terminated. -/
def SyncMachineStep.Handles (machine : SyncMachineStep M E) (started : Bool)
    (core : M) (event : E) (after : M) (accepted : Bool) : Prop :=
  if started && !machine.isTerminated core then
    machine.returns core event after accepted
  else after = core ∧ accepted = false

section Handles

variable {machine : SyncMachineStep M E} {started accepted : Bool}
  {core after : M} {event : E}

theorem SyncMachineStep.Handles.of_open
    (opened : (started && !machine.isTerminated core) = true)
    (returns : machine.returns core event after accepted) :
    machine.Handles started core event after accepted := by
  unfold SyncMachineStep.Handles
  rw [if_pos opened]
  exact returns

theorem SyncMachineStep.Handles.of_closed
    (closed : (started && !machine.isTerminated core) = false) :
    machine.Handles started core event core false := by
  unfold SyncMachineStep.Handles
  rw [if_neg (by simp [closed])]
  exact ⟨rfl, rfl⟩

end Handles

/-- The events a sequential machine has handled, with what it returned, and the
machine behind them. -/
inductive SequentialRuns (machine : SyncMachineStep M E) (initial : M) :
    List (E × Bool) → M → Prop where
  | start : SequentialRuns machine initial [] (machine.start initial).1
  | handle {calls : List (E × Bool)} {core after : M} {event : E}
      {accepted : Bool} (run : SequentialRuns machine initial calls core)
      (handles : machine.Handles (machine.start initial).2 core event after
        accepted) :
      SequentialRuns machine initial (calls ++ [(event, accepted)]) after

/-- The steps a caller makes alone between the beginning and the end of a call. -/
def Label.AloneOf (c : Nat) (label : Label) : Prop :=
  label.caller = c ∧ label.action = .advances

/-! ### Calls of `InlineScheduler` -/

/-- A call of `submit` that nothing overlaps. Its completion is ready with the
result. -/
structure InlineCall (machine : SyncMachineStep M E) (s : InlineState M E)
    (event : E) (accepted : Bool) (t : InlineState M E) : Prop where
  runs : ∃ c u labels, InlineStep machine s ⟨c, .submits⟩ u ∧
    u.frames c = .locking { event, serial := s.nextSerial } ∧
    TraceWhere (InlineStep machine) (fun _ label => label.AloneOf c) u labels t ∧
    t.frames c = .idle
  ready : t.results =
    s.results ++ [({ event, serial := s.nextSerial }, accepted)]

/-- Calls one after the other. -/
inductive InlineRuns (machine : SyncMachineStep M E) (initial : M) :
    List (E × Bool) → InlineState M E → Prop where
  | cell : InlineRuns machine initial [] (InlineState.start machine initial)
  | call {calls : List (E × Bool)} {s t : InlineState M E} {event : E}
      {accepted : Bool} (run : InlineRuns machine initial calls s)
      (call : InlineCall machine s event accepted t) :
      InlineRuns machine initial (calls ++ [(event, accepted)]) t

namespace InlineState

variable {machine : SyncMachineStep M E} {s t : InlineState M E}

theorem put_frames (s : InlineState M E) (c : Nat) (frame : InlineFrame E) :
    (s.put c frame).frames c = frame :=
  Function.update_self _ _ _

/-- No call is in progress. -/
structure Quiet (started : Bool) (s : InlineState M E) : Prop where
  frames : ∀ c, s.frames c = .idle
  held : s.held = false
  started : s.cell.started = started

theorem start_quiet (machine : SyncMachineStep M E) (initial : M) :
    (start machine initial).Quiet (machine.start initial).2 :=
  ⟨fun _ => rfl, rfl, rfl⟩

/-- Where a call that nothing overlaps stands. -/
inductive Calling (machine : SyncMachineStep M E) (s : InlineState M E)
    (event : E) (c : Nat) : InlineState M E → Prop where
  | locking {u : InlineState M E}
      (at_lock : u.frames = Function.update s.frames c
        (.locking { event, serial := s.nextSerial }))
      (held : u.held = false) (cell : u.cell = s.cell)
      (results : u.results = s.results) : Calling machine s event c u
  | stepping {u : InlineState M E}
      (at_step : u.frames = Function.update s.frames c
        (.stepping { event, serial := s.nextSerial }))
      (accepts : s.cell.accepts machine = true) (cell : u.cell = s.cell)
      (results : u.results = s.results) : Calling machine s event c u
  | returned {u : InlineState M E} {accepted : Bool}
      (idle : u.frames = Function.update s.frames c .idle)
      (held : u.held = false) (started : u.cell.started = s.cell.started)
      (handles : machine.Handles s.cell.started s.cell.machine event
        u.cell.machine accepted)
      (results : u.results =
        s.results ++ [({ event, serial := s.nextSerial }, accepted)]) :
      Calling machine s event c u

variable {event : E} {c : Nat} {u v : InlineState M E} {label : Label}

/-- The frame of the caller says how far its call has come. -/
theorem Calling.frame (calling : Calling machine s event c u) :
    u.frames c = .locking { event, serial := s.nextSerial } ∨
      u.frames c = .stepping { event, serial := s.nextSerial } ∨
        u.frames c = .idle := by
  cases calling with
  | locking at_lock => exact .inl (by simp [at_lock])
  | stepping at_step => exact .inr (.inl (by simp [at_step]))
  | returned idle => exact .inr (.inr (by simp [idle]))

/-- A step of the caller brings its call further. -/
theorem Calling.step (calling : Calling machine s event c u)
    (step : InlineStep machine u label v) (alone : label.AloneOf c) :
    Calling machine s event c v := by
  obtain ⟨same, advances⟩ := alone
  have moved (frame frame' : InlineFrame E)
      (at_frame : u.frames = Function.update s.frames c frame) :
      Function.update u.frames c frame' = Function.update s.frames c frame' := by
    rw [at_frame, Function.update_idem]
  cases step with
  | submit => cases advances
  | stepPanics => cases advances
  | reject at_lock unlocked refuses =>
      subst same
      cases calling with
      | locking at_frame held cell results =>
          rw [at_frame, Function.update_self] at at_lock
          cases at_lock
          have rejects : machine.Handles s.cell.started s.cell.machine event
              u.cell.machine false := by
            rw [cell] at refuses ⊢
            exact .of_closed refuses
          exact .returned (moved _ _ at_frame) held (congrArg _ cell) rejects
            (congrArg (· ++ _) results)
      | stepping at_frame | returned at_frame =>
          rw [at_frame, Function.update_self] at at_lock
          cases at_lock
  | beginStep at_lock unlocked accepts =>
      subst same
      cases calling with
      | locking at_frame held cell results =>
          rw [at_frame, Function.update_self] at at_lock
          cases at_lock
          exact .stepping (moved _ _ at_frame) (cell ▸ accepts) cell results
      | stepping at_frame | returned at_frame =>
          rw [at_frame, Function.update_self] at at_lock
          cases at_lock
  | @stepReturns _ _ core accepted at_step returns =>
      subst same
      cases calling with
      | stepping at_frame accepts cell results =>
          rw [at_frame, Function.update_self] at at_step
          cases at_step
          have handles : machine.Handles s.cell.started s.cell.machine event core
              accepted := by
            rw [cell] at returns
            exact .of_open accepts returns
          have started : u.cell.started = s.cell.started := congrArg _ cell
          exact .returned (moved _ _ at_frame) rfl started handles
            (congrArg (· ++ _) results)
      | locking at_frame | returned at_frame =>
          rw [at_frame, Function.update_self] at at_step
          cases at_step

/-- A run of the caller brings its call further. -/
theorem Calling.run {labels : List Label}
    (run : TraceWhere (InlineStep machine) (fun _ label => label.AloneOf c) u
      labels v) (calling : Calling machine s event c u) :
    Calling machine s event c v := by
  induction run with
  | nil => exact calling
  | snoc _ last inductionHypothesis =>
      exact inductionHypothesis.step last.1 last.2

end InlineState

section InlineCalls

variable {machine : SyncMachineStep M E} {s t : InlineState M E} {event : E}
  {started accepted : Bool}

/-- A call that nothing overlaps is answered as by the sequential machine. -/
theorem InlineCall.handles (quiet : s.Quiet started)
    (call : InlineCall machine s event accepted t) :
    t.Quiet started ∧
      machine.Handles started s.cell.machine event t.cell.machine accepted := by
  obtain ⟨⟨c, u, labels, submit, at_lock, run, idle⟩, ready⟩ := call
  have begins : InlineState.Calling machine s event c u := by
    cases submit with
    | submit other at_idle =>
        have same : other = event := by
          simpa [InlineState.put] using at_lock
        subst same
        exact .locking rfl quiet.held rfl rfl
  have ends := begins.run run
  cases ends with
  | locking at_frame | stepping at_frame =>
      rw [at_frame, Function.update_self] at idle
      cases idle
  | @returned result at_frame held started handles results =>
      rw [results] at ready
      have same : result = accepted := by simpa using ready
      rw [same, quiet.started] at handles
      refine ⟨⟨fun d => ?_, held, started.trans quiet.started⟩, handles⟩
      rw [at_frame, Function.update_apply]
      split
      · rfl
      · exact quiet.frames d

/-- Whatever the sequential machine answers, a call may answer too. -/
theorem InlineCall.exists_of_handles {after : M} (quiet : s.Quiet started)
    (handles : machine.Handles started s.cell.machine event after accepted) :
    ∃ t, InlineCall machine s event accepted t ∧ t.cell.machine = after := by
  have alone : Label.AloneOf 0 ⟨0, .advances⟩ := ⟨rfl, rfl⟩
  have submit := @InlineStep.submit _ _ machine s 0 event (quiet.frames 0)
  have at_lock : (({ s with nextSerial := s.nextSerial + 1 } :
      InlineState M E).put 0 (.locking { event, serial := s.nextSerial })).frames
        0 = .locking { event, serial := s.nextSerial } :=
    InlineState.put_frames _ _ _
  unfold SyncMachineStep.Handles at handles
  cases opened : s.cell.accepts machine with
  | true =>
      have open_cell : (started && !machine.isTerminated s.cell.machine) = true := by
        rw [← quiet.started]
        exact opened
      rw [if_pos open_cell] at handles
      have begins := @InlineStep.beginStep _ _ machine _ 0 _ at_lock quiet.held
        opened
      exact ⟨_, ⟨⟨0, _, _, submit, at_lock,
        .snoc (.snoc .nil ⟨begins, alone⟩)
          ⟨.stepReturns (InlineState.put_frames _ _ _) handles, alone⟩,
        InlineState.put_frames _ _ _⟩, rfl⟩, rfl⟩
  | false =>
      have closed_cell :
          (started && !machine.isTerminated s.cell.machine) = false := by
        rw [← quiet.started]
        exact opened
      rw [if_neg (by simp [closed_cell])] at handles
      obtain ⟨rfl, rfl⟩ := handles
      have rejects := @InlineStep.reject _ _ machine _ 0 _ at_lock quiet.held
        opened
      exact ⟨_, ⟨⟨0, _, _, submit, at_lock, .snoc .nil ⟨rejects, alone⟩,
        InlineState.put_frames _ _ _⟩, rfl⟩, rfl⟩

/-- `InlineScheduler` refines the sequential machine, and the other way round. -/
theorem inline_runs_iff {initial core : M} {calls : List (E × Bool)} :
    (∃ s, InlineRuns machine initial calls s ∧ s.cell.machine = core) ↔
      SequentialRuns machine initial calls core := by
  constructor
  · rintro ⟨s, runs, rfl⟩
    suffices both : s.Quiet (machine.start initial).2 ∧
        SequentialRuns machine initial calls s.cell.machine from both.2
    induction runs with
    | cell => exact ⟨InlineState.start_quiet machine initial, .start⟩
    | call _ call inductionHypothesis =>
        obtain ⟨quiet, sequential⟩ := inductionHypothesis
        obtain ⟨still, handles⟩ := call.handles quiet
        exact ⟨still, sequential.handle handles⟩
  · intro sequential
    suffices both : ∃ s : InlineState M E, InlineRuns machine initial calls s ∧
        s.Quiet (machine.start initial).2 ∧ s.cell.machine = core by
      obtain ⟨s, runs, _, same⟩ := both
      exact ⟨s, runs, same⟩
    induction sequential with
    | start =>
        exact ⟨_, .cell, InlineState.start_quiet machine initial, rfl⟩
    | handle _ handles inductionHypothesis =>
        obtain ⟨s, runs, quiet, rfl⟩ := inductionHypothesis
        obtain ⟨t, call, same⟩ := InlineCall.exists_of_handles quiet handles
        exact ⟨t, runs.call call, (call.handles quiet).1, same⟩

end InlineCalls

/-! ### Calls of `FifoScheduler` -/

/-- What a poll of a completion is ready with. -/
def State.polled (s : State M E N) (completion : Nat) : Option Bool :=
  match s.completions completion with
  | .held (.done accepted) => some accepted
  | .held (.queued ticket) => (s.tickets ticket).accepted
  | .held (.room ..) | .free | .borrowed | .dropped => none

/-- A call of `submit` that nothing overlaps, and the poll of its completion. -/
structure FifoCall (machine : SyncMachineStep M E) (s : State M E N) (event : E)
    (accepted : Bool) (t : State M E N) : Prop where
  runs : ∃ c completion u labels v, Step machine s ⟨c, .submits⟩ u ∧
    u.frames c = .offering .submit { event, serial := s.nextSerial } ∧
    TraceWhere (Step machine) (fun _ label => label.AloneOf c) u labels v ∧
    v.frames c = .idle ∧ s.completions completion = .free ∧
    v.polled completion = some accepted ∧ Step machine v ⟨c, .polls completion⟩ t

/-- Calls one after the other. -/
inductive FifoRuns (machine : SyncMachineStep M E) (initial : M) :
    List (E × Bool) → State M E N → Prop where
  | cell : FifoRuns machine initial [] (State.cell machine initial)
  | call {calls : List (E × Bool)} {s t : State M E N} {event : E}
      {accepted : Bool} (run : FifoRuns machine initial calls s)
      (call : FifoCall machine s event accepted t) :
      FifoRuns machine initial (calls ++ [(event, accepted)]) t

section FifoCalls

variable {machine : SyncMachineStep M E} {s t u v : State M E N} {event : E}
  {c : Nat}

/-- What a step of a caller does at a frame that a call which nothing overlaps
can reach. -/
def State.Advances (machine : SyncMachineStep M E) (u : State M E N) (c : Nat)
    (v : State M E N) : Frame E → Prop
  | .idle => False
  | .offering caller job =>
      v = ({ u with
        queue := (u.queue.offer job u.nextTicket caller.waiter).1 } :
          State M E N).afterOffer c caller job
            (u.queue.offer job u.nextTicket caller.waiter).2
  | .draining drain (.running job ticket false) =>
      v = ({ u with held := true, history := u.history.begin job } :
        State M E N).put c (.draining drain (.stepping job ticket))
  | .draining drain (.stepping job ticket) =>
      ∃ core accepted, machine.returns u.machine job.event core accepted ∧
        v = ({ u with
          machine := core
          held := false
          history := u.history.complete job accepted } : State M E N).put c
            (.draining drain
              (.resolving job ticket accepted (machine.isTerminated core)))
  | .draining drain (.resolving job ticket accepted terminated) =>
      v = (u.resolve job ticket accepted).put c
        (.draining (drain.accept accepted) (.looping terminated))
  | .draining drain (.looping terminated) =>
      v = ({ u with queue := (u.queue.drainNext terminated).1 } :
        State M E N).afterLoop c drain terminated
          (u.queue.drainNext terminated).2.2
          (u.queue.drainNext terminated).2.1
  | .draining drain (.finishing []) => v = u.put c (.draining drain .dropping)
  | .draining drain .dropping =>
      v = u.put c (.offered drain.caller drain.job drain.result)
  | .offered .submit _ (.done accepted) =>
      ∃ completion, u.completions completion = .free ∧
        v = (u.hold completion (.done accepted)).put c .idle
  | _ => True

theorem Step.advances (step : Step machine u ⟨c, .advances⟩ v) :
    u.Advances machine c v (u.frames c) := by
  cases step with
  | offer at_offer locked =>
      rw [at_offer]
      simp only [State.Advances, locked]
  | skip at_run => rw [at_run]; trivial
  | beginStep at_run => rw [at_run]; rfl
  | stepReturns at_step returns => rw [at_step]; exact ⟨_, _, returns, rfl⟩
  | resolve at_resolve => rw [at_resolve]; rfl
  | loop at_loop locked =>
      rw [at_loop]
      simp only [State.Advances, locked]
  | wakeNext at_wake | runNext at_wake | wakeLast at_wake =>
      rw [at_wake]; trivial
  | finish at_wake => rw [at_wake]; rfl
  | guardReturns at_drop => rw [at_drop]; rfl
  | pendingDrop at_panic => rw [at_panic]; trivial
  | guardReads at_guard | guardHands at_guard => rw [at_guard]; trivial
  | strand at_strand | stranded at_strand => rw [at_strand]; trivial
  | rouse at_rouse | rousedReturning at_rouse => rw [at_rouse]; trivial
  | returnDone at_return new free =>
      rw [at_return]
      rcases new with rfl | rfl
      · exact ⟨_, free, rfl⟩
      · trivial
  | returnQueued at_return new =>
      rw [at_return]
      rcases new with rfl | rfl <;> trivial
  | returnRoom at_return | returnFull at_return => rw [at_return]; trivial
  | polledRoom at_return | polledDone at_return | polledQueued at_return =>
      rw [at_return]; trivial
  | pollTicket at_poll => rw [at_poll]; trivial

theorem State.put_frames (s : State M E N) (c : Nat) (frame : Frame E) :
    (s.put c frame).frames c = frame :=
  Function.update_self _ _ _

/-- Nothing but one call is going on, and nothing waits. -/
structure State.Calm (c : Nat) (s : State M E N) : Prop where
  wf : s.queue.Wf
  empty : s.queue.entries = []
  room : s.queue.room = []
  others : ∀ d, d ≠ c → s.frames d = .idle

theorem State.Calm.move (calm : s.Calm c) {frame : Frame E}
    (queue : t.queue = s.queue)
    (frames : t.frames = Function.update s.frames c frame) : t.Calm c where
  wf := queue ▸ calm.wf
  empty := queue ▸ calm.empty
  room := queue ▸ calm.room
  others d apart := by
    rw [frames, Function.update_of_ne apart]
    exact calm.others d apart

/-- The result of a call, with the machine and the closing of the queue that it
leaves behind. -/
def State.Verdict (machine : SyncMachineStep M E) (s : State M E N) (event : E)
    (accepted : Bool) (u : State M E N) : Prop :=
  if s.queue.terminated then
    u.machine = s.machine ∧ u.queue.terminated = true ∧ accepted = false
  else
    machine.returns s.machine event u.machine accepted ∧
      u.queue.terminated = machine.isTerminated u.machine

/-- The drain of a call of its own. -/
def ownDrain (job : Job E) (accepted : Option Bool) : Drain E :=
  { caller := .submit, job, own := none, accepted }

/-- Where a call that nothing overlaps stands. -/
inductive State.Calling (machine : SyncMachineStep M E) (s : State M E N)
    (event : E) (job : Job E) (c : Nat) (u : State M E N) : Prop where
  | offering (calm : u.Calm c) (at_offer : u.frames c = .offering .submit job)
      (core : u.machine = s.machine) (free : u.queue.draining = false)
      (closed : u.queue.terminated = s.queue.terminated)
      (completions : u.completions = s.completions) (held : u.held = false)
  | running (calm : u.Calm c) (opened : s.queue.terminated = false)
      (at_run : u.frames c =
        .draining (ownDrain job none) (.running job none false))
      (core : u.machine = s.machine)
      (completions : u.completions = s.completions)
  | stepping (calm : u.Calm c) (opened : s.queue.terminated = false)
      (at_step : u.frames c =
        .draining (ownDrain job none) (.stepping job none))
      (core : u.machine = s.machine)
      (completions : u.completions = s.completions)
  | resolving {accepted : Bool} (calm : u.Calm c)
      (opened : s.queue.terminated = false)
      (at_resolve : u.frames c = .draining (ownDrain job none)
        (.resolving job none accepted (machine.isTerminated u.machine)))
      (returns : machine.returns s.machine event u.machine accepted)
      (completions : u.completions = s.completions) (held : u.held = false)
  | looping {accepted : Bool} (calm : u.Calm c)
      (opened : s.queue.terminated = false)
      (at_loop : u.frames c = .draining (ownDrain job (some accepted))
        (.looping (machine.isTerminated u.machine)))
      (returns : machine.returns s.machine event u.machine accepted)
      (completions : u.completions = s.completions) (held : u.held = false)
  | leaving {accepted : Bool} (calm : u.Calm c)
      (at_leave : u.frames c =
          .draining (ownDrain job (some accepted)) (.finishing []) ∨
        u.frames c = .draining (ownDrain job (some accepted)) .dropping ∨
        u.frames c = .offered .submit job (.done accepted))
      (verdict : s.Verdict machine event accepted u)
      (free : u.queue.draining = false)
      (completions : u.completions = s.completions) (held : u.held = false)
  | returned {accepted : Bool} {completion : Nat} (calm : u.Calm c)
      (idle : u.frames c = .idle) (verdict : s.Verdict machine event accepted u)
      (free : u.queue.draining = false)
      (unused : s.completions completion = .free)
      (completions : u.completions =
        Function.update s.completions completion (.held (.done accepted)))
      (held : u.held = false)

/-- A step of the caller brings its call further. -/
theorem State.Calling.step (fits : N ≤ usizeMax) {job : Job E}
    (same : job.event = event) {label : Label}
    (calling : s.Calling machine event job c u) (step : Step machine u label v)
    (alone : label.AloneOf c) : s.Calling machine event job c v := by
  obtain ⟨caller, action⟩ := label
  obtain ⟨rfl, rfl⟩ := alone
  have moves := step.advances
  cases calling with
  | offering calm at_offer core free closed completions held =>
      rw [at_offer] at moves
      have spec := u.queue.offer_spec fits calm.wf job u.nextTicket none
      have after : v = ({ u with
          queue := (u.queue.offer job u.nextTicket none).1 } :
            State M E N).afterOffer caller .submit job
              (u.queue.offer job u.nextTicket none).2 := moves
      generalize u.queue.offer job u.nextTicket none = result at spec after
      obtain ⟨queue, outcome⟩ := result
      subst after
      cases spec with
      | terminated ended =>
          have verdict : s.Verdict machine event false
              (({ u with queue := u.queue } : State M E N).afterOffer caller
                .submit job .terminated) := by
            unfold State.Verdict
            rw [if_pos (closed ▸ ended)]
            exact ⟨core, ended, rfl⟩
          exact .leaving (calm.move rfl rfl) (.inr (.inr (State.put_frames _ _ _)))
            verdict free completions held
      | full _ busy | queued _ busy =>
          rw [free] at busy
          cases busy
      | drainOlder _ _ front =>
          rw [calm.empty] at front
          cases front
      | drainOwn opened =>
          refine .running ?_ (closed ▸ opened) (State.put_frames _ _ _) core
            completions
          exact
            { wf := calm.wf
              empty := calm.empty
              room := calm.room
              others := fun d apart =>
                (Function.update_of_ne apart _ _).trans (calm.others d apart) }
  | running calm opened at_run core completions =>
      rw [at_run] at moves
      subst moves
      exact .stepping (calm.move rfl rfl) opened (State.put_frames _ _ _) core
        completions
  | stepping calm opened at_step core completions =>
      rw [at_step] at moves
      obtain ⟨after, accepted, returns, rfl⟩ := moves
      rw [core, same] at returns
      exact .resolving (calm.move rfl rfl) opened (State.put_frames _ _ _) returns
        completions rfl
  | resolving calm opened at_resolve returns completions held =>
      rw [at_resolve] at moves
      subst moves
      exact .looping (calm.move rfl rfl) opened (State.put_frames _ _ _) returns
        completions held
  | @looping accepted calm opened at_loop returns completions held =>
      rw [at_loop] at moves
      have spec := u.queue.drainNext_spec fits calm.wf
        (machine.isTerminated u.machine)
      have after : v = ({ u with
          queue := (u.queue.drainNext (machine.isTerminated u.machine)).1 } :
            State M E N).afterLoop caller (ownDrain job (some accepted))
              (machine.isTerminated u.machine)
              (u.queue.drainNext (machine.isTerminated u.machine)).2.2
              (u.queue.drainNext (machine.isTerminated u.machine)).2.1 := moves
      generalize u.queue.drainNext (machine.isTerminated u.machine) = result
        at spec after
      obtain ⟨queue, next, room⟩ := result
      subst after
      dsimp only at spec
      cases spec with
      | next front =>
          rw [calm.empty] at front
          cases front
      | done _ wf entries draining closed noRoom =>
          have verdict : s.Verdict machine event accepted
              (({ u with queue := queue } : State M E N).afterLoop caller
                (ownDrain job (some accepted)) (machine.isTerminated u.machine)
                u.queue.room none) := by
            unfold State.Verdict
            rw [if_neg (by simp [opened])]
            exact ⟨returns, closed⟩
          refine .leaving ?_ (.inl ?_) verdict draining completions held
          · exact
              { wf := wf
                empty := entries
                room := noRoom
                others := fun d apart =>
                  (Function.update_of_ne apart _ _).trans
                    (calm.others d apart) }
          · rw [← calm.room]
            exact State.put_frames _ _ _
  | leaving calm at_leave verdict free completions held =>
      rcases at_leave with at_frame | at_frame | at_frame
      · rw [at_frame] at moves
        subst moves
        exact .leaving (calm.move rfl rfl) (.inr (.inl (State.put_frames _ _ _)))
          verdict free completions held
      · rw [at_frame] at moves
        subst moves
        exact .leaving (calm.move rfl rfl) (.inr (.inr (State.put_frames _ _ _)))
          verdict free completions held
      · rw [at_frame] at moves
        obtain ⟨completion, unused, rfl⟩ := moves
        rw [completions] at unused
        exact .returned (calm.move rfl rfl) (State.put_frames _ _ _) verdict free
          unused (by rw [← completions]; rfl) held
  | returned calm idle =>
      rw [idle] at moves
      exact moves.elim

theorem State.Calling.run (fits : N ≤ usizeMax) {job : Job E}
    (same : job.event = event) {labels : List Label}
    (run : TraceWhere (Step machine) (fun _ label => label.AloneOf c) u labels v)
    (calling : s.Calling machine event job c u) :
    s.Calling machine event job c v := by
  induction run with
  | nil => exact calling
  | snoc _ last inductionHypothesis =>
      exact inductionHypothesis.step fits same last.1 last.2

/-- No call is in progress, nothing waits, and the queue is closed exactly where
the sequential machine is. -/
structure State.Quiet (machine : SyncMachineStep M E) (started : Bool)
    (s : State M E N) : Prop where
  wf : s.queue.Wf
  empty : s.queue.entries = []
  room : s.queue.room = []
  free : s.queue.draining = false
  held : s.held = false
  frames : ∀ c, s.frames c = .idle
  closed : s.queue.terminated = !(started && !machine.isTerminated s.machine)
  unused : ∃ bound, ∀ completion, bound ≤ completion →
    s.completions completion = .free

theorem State.cell_quiet (machine : SyncMachineStep M E) (initial : M) :
    (State.cell machine initial : State M E N).Quiet machine
      (machine.start initial).2 where
  wf := (FifoQueue.Wf.of_represents EventQueue.new_represents).1
  empty := (FifoQueue.Wf.of_represents EventQueue.new_represents).2
  room := rfl
  free := rfl
  held := rfl
  frames _ := rfl
  closed := by
    simp [State.cell]
  unused := ⟨0, fun _ _ => rfl⟩

variable {started accepted : Bool}

/-- A call that nothing overlaps is answered as by the sequential machine. -/
theorem FifoCall.handles (fits : N ≤ usizeMax) (quiet : s.Quiet machine started)
    (call : FifoCall machine s event accepted t) :
    t.Quiet machine started ∧
      machine.Handles started s.machine event t.machine accepted := by
  obtain ⟨c, completion, u, labels, v, submit, at_offer, run, idle, unused,
    ready, poll⟩ := call
  have begins : s.Calling machine event { event, serial := s.nextSerial } c u := by
    cases submit with
    | submit other at_idle =>
        have calm : s.Calm c :=
          ⟨quiet.wf, quiet.empty, quiet.room, fun d _ => quiet.frames d⟩
        exact .offering (calm.move rfl rfl) at_offer rfl quiet.free rfl rfl
          quiet.held
    | trySubmit other at_idle =>
        rw [State.put_frames] at at_offer
        cases at_offer
  have ends : s.Calling machine event { event, serial := s.nextSerial } c v :=
    State.Calling.run fits rfl run begins
  cases ends with
  | offering _ at_frame | running _ _ at_frame | stepping _ _ at_frame
  | resolving _ _ at_frame | looping _ _ at_frame =>
      rw [at_frame] at idle
      cases idle
  | leaving _ at_leave =>
      rcases at_leave with at_frame | at_frame | at_frame
      all_goals
        rw [at_frame] at idle
        cases idle
  | @returned result own calm _ verdict free _ completions held =>
      have still (other : Nat) (apart : other ≠ own) :
          v.completions other = s.completions other := by
        rw [completions, Function.update_of_ne apart]
      have mine : completion = own := by
        by_contra apart
        unfold State.polled at ready
        rw [still completion apart, unused] at ready
        cases ready
      subst mine
      have done : v.completions completion = .held (.done result) := by
        rw [completions, Function.update_self]
      have same : result = accepted := by
        unfold State.polled at ready
        rw [done] at ready
        exact Option.some.inj ready
      subst same
      have unchanged : t = v := by
        cases poll with
        | pollRoom _ _ wait | pollQueued _ _ wait =>
            rw [done] at wait
            cases wait
        | pollDone => rfl
      subst unchanged
      have frames (d : Nat) : t.frames d = .idle := by
        by_cases apart : d = c
        · rw [apart]
          exact idle
        · exact calm.others d apart
      obtain ⟨bound, unused⟩ := quiet.unused
      have later : ∃ bound, ∀ other, bound ≤ other →
          t.completions other = .free := by
        refine ⟨max bound (completion + 1), fun other above => ?_⟩
        rw [still other (by omega)]
        exact unused other (by omega)
      unfold State.Verdict at verdict
      rw [quiet.closed] at verdict
      cases opened : started && !machine.isTerminated s.machine with
      | true =>
          rw [opened] at verdict
          obtain ⟨returns, closed⟩ := verdict
          refine ⟨⟨calm.wf, calm.empty, calm.room, free, held, frames, ?_, later⟩,
            .of_open opened returns⟩
          have begun : started = true := (Bool.and_eq_true_iff.mp opened).1
          simp [closed, begun]
      | false =>
          rw [opened] at verdict
          obtain ⟨core, closed, rfl⟩ := verdict
          rw [core]
          refine ⟨⟨calm.wf, calm.empty, calm.room, free, held, frames, ?_, later⟩,
            .of_closed opened⟩
          rw [core, opened, closed]
          rfl

/-- Whatever the sequential machine answers, a call may answer too. -/
theorem FifoCall.exists_of_handles {after : M}
    (quiet : s.Quiet machine started)
    (handles : machine.Handles started s.machine event after accepted) :
    ∃ t, FifoCall machine s event accepted t ∧ t.machine = after := by
  have alone : Label.AloneOf 0 ⟨0, .advances⟩ := ⟨rfl, rfl⟩
  obtain ⟨bound, unused⟩ := quiet.unused
  have free := unused bound (Nat.le_refl _)
  have submit := @Step.submit _ _ _ machine s 0 event (quiet.frames 0)
  have ready (t : State M E N) : ((t.hold bound (.done accepted)).put 0 .idle).polled
      bound = some accepted := by
    unfold State.polled State.put State.hold
    simp
  have poll (t : State M E N) :
      Step machine ((t.hold bound (.done accepted)).put 0 .idle)
        ⟨0, .polls bound⟩ ((t.hold bound (.done accepted)).put 0 .idle) :=
    .pollDone (State.put_frames _ _ _) (Function.update_self bound _ _)
  unfold SyncMachineStep.Handles at handles
  cases opened : started && !machine.isTerminated s.machine with
  | false =>
      rw [if_neg (by simp [opened])] at handles
      obtain ⟨rfl, rfl⟩ := handles
      have closed : s.queue.terminated = true := by
        rw [quiet.closed, opened]
        rfl
      have locked (job : Job E) : s.queue.offer job s.nextTicket none =
          (s.queue, .terminated) := by
        unfold FifoQueue.offer
        rw [if_pos closed]
      have rejects := @Step.offer _ _ _ machine _ 0 .submit _ _ _
        (State.put_frames ({ s with nextSerial := s.nextSerial + 1 } :
          State M E N) 0 (.offering .submit { event, serial := s.nextSerial }))
        (locked _)
      exact ⟨_, ⟨0, bound, _, _, _, submit, State.put_frames _ _ _,
        .snoc (.snoc .nil ⟨rejects, alone⟩)
          ⟨.returnDone (State.put_frames _ _ _) (.inl rfl) free, alone⟩,
        State.put_frames _ _ _, free, ready _, poll _⟩, rfl⟩
  | true =>
      rw [if_pos opened] at handles
      have unclosed : s.queue.terminated = false := by
        rw [quiet.closed, opened]
        rfl
      have none_left := EventQueue.pop_empty (quiet.wf.represents quiet.empty)
      have locked (job : Job E) : s.queue.offer job s.nextTicket none =
          ({ s.queue with draining := true }, .drainOwn) := by
        unfold FifoQueue.offer
        rw [if_neg (by simp [unclosed]), if_neg (by simp [quiet.free]), none_left]
      have emptied (terminated : Bool) :
          ({ s.queue with draining := true } : FifoQueue E N).drainNext terminated =
            ({ s.queue with
                terminated := terminated
                draining := false
                room := [] }, none, []) := by
        unfold FifoQueue.drainNext
        rw [none_left, quiet.room]
      have offers := @Step.offer _ _ _ machine _ 0 .submit _ _ _
        (State.put_frames ({ s with nextSerial := s.nextSerial + 1 } :
          State M E N) 0 (.offering .submit { event, serial := s.nextSerial }))
        (locked _)
      have at_frame := @State.put_frames M E N
      exact ⟨_, ⟨0, bound, _, _, _, submit, at_frame _ _ _,
        .snoc (.snoc (.snoc (.snoc (.snoc (.snoc (.snoc (.snoc .nil
          ⟨offers, alone⟩)
          ⟨.beginStep (at_frame _ _ _) quiet.held, alone⟩)
          ⟨.stepReturns (at_frame _ _ _) handles, alone⟩)
          ⟨.resolve (at_frame _ _ _), alone⟩)
          ⟨.loop (at_frame _ _ _) (emptied _), alone⟩)
          ⟨.finish (at_frame _ _ _), alone⟩)
          ⟨.guardReturns (at_frame _ _ _), alone⟩)
          ⟨.returnDone (at_frame _ _ _) (.inl rfl) free, alone⟩,
        at_frame _ _ _, free, ready _, poll _⟩, rfl⟩

/-- `FifoScheduler` refines the sequential machine, and the other way round. -/
theorem fifo_runs_iff (fits : N ≤ usizeMax) {initial core : M}
    {calls : List (E × Bool)} :
    (∃ s : State M E N, FifoRuns machine initial calls s ∧ s.machine = core) ↔
      SequentialRuns machine initial calls core := by
  constructor
  · rintro ⟨s, runs, rfl⟩
    suffices both : s.Quiet machine (machine.start initial).2 ∧
        SequentialRuns machine initial calls s.machine from both.2
    induction runs with
    | cell => exact ⟨State.cell_quiet machine initial, .start⟩
    | call _ call inductionHypothesis =>
        obtain ⟨quiet, sequential⟩ := inductionHypothesis
        obtain ⟨still, handles⟩ := call.handles fits quiet
        exact ⟨still, sequential.handle handles⟩
  · intro sequential
    suffices both : ∃ s : State M E N, FifoRuns machine initial calls s ∧
        s.Quiet machine (machine.start initial).2 ∧ s.machine = core by
      obtain ⟨s, runs, _, same⟩ := both
      exact ⟨s, runs, same⟩
    induction sequential with
    | start => exact ⟨_, .cell, State.cell_quiet machine initial, rfl⟩
    | handle _ handles inductionHypothesis =>
        obtain ⟨s, runs, quiet, rfl⟩ := inductionHypothesis
        obtain ⟨t, call, same⟩ := FifoCall.exists_of_handles quiet handles
        exact ⟨t, runs.call call, (call.handles fits quiet).1, same⟩

end FifoCalls

/-- For every machine and every sequence of calls that do not overlap, both
schedulers return what the sequential machine returns, and leave the machine as it
does. -/
theorem schedulers_refine (machine : SyncMachineStep M E) (initial : M)
    (scheduler : FifoScheduler) (calls : List (E × Bool)) (core : M) :
    ((∃ s, InlineRuns machine initial calls s ∧ s.cell.machine = core) ↔
        SequentialRuns machine initial calls core) ∧
      ((∃ s : State M E scheduler.N,
          FifoRuns machine initial calls s ∧ s.machine = core) ↔
        SequentialRuns machine initial calls core) :=
  ⟨inline_runs_iff, fifo_runs_iff scheduler.fits⟩

end SmlRs.Scheduler
