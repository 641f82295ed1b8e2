/-
Module: SmlRs.Scheduler.Server
Purpose: What a queued scheduler is for: one FIFO line, served by one caller at
  a time, whose turn is handed on.  The interleavings of `FifoScheduler` refine
  it.
Trusted boundary: none
Main exports: Server, Server.Step, State.server, State.RingOk, Step.refines
-/
import SmlRs.Scheduler.Fifo

namespace SmlRs.Scheduler

open Utility

variable {M E : Type*}

/-- Where a caller stands in the line's protocol. The first seven stages own
the turn; the others only finish what a guard handed them. -/
inductive Stage (E : Type*) where
  | running (job : Job E) (ticket : Option TicketId) (terminated : Bool)
  | stepping (job : Job E) (ticket : Option TicketId)
  | resolving (job : Job E) (ticket : Option TicketId)
      (accepted terminated : Bool)
  | looping (terminated : Bool)
  | panicked (job : Job E) (ticket : Option TicketId)
  | reading (job : Job E) (ticket : Option TicketId)
  | handing (job : Job E) (ticket : Option TicketId) (terminated : Bool)
  | stranding (stranded : List (Job E × TicketId))
  | foreignReading
  | foreignHanding (terminated : Bool)

/-- The stages that own the turn. -/
def Stage.Owns : Stage E → Prop
  | .running .. | .stepping .. | .resolving .. | .looping .. | .panicked ..
  | .reading .. | .handing .. => True
  | .stranding .. | .foreignReading | .foreignHanding .. => False

/-- A machine and the line of jobs before it. -/
structure Server (M E : Type*) where
  machine : M
  started : Bool
  /-- Whether a step is in progress. -/
  held : Bool
  entries : List (Job E × TicketId)
  draining : Bool
  terminated : Bool
  accepted : TicketId → Option Bool
  nextTicket : TicketId
  history : History E
  stages : Nat → Option (Stage E)

namespace Server

/-- Moves a caller to a stage, or out of the protocol. -/
def move (S : Server M E) (c : Nat) (stage : Option (Stage E)) : Server M E :=
  { S with stages := Function.update S.stages c stage }

def resolve (S : Server M E) (job : Job E) (ticket : Option TicketId)
    (accepted : Bool) : Server M E :=
  { S with
    accepted :=
      match ticket with
      | some ticket => Function.update S.accepted ticket (some accepted)
      | none => S.accepted
    history := S.history.resolve job ticket accepted }

def enter (S : Server M E) (job : Job E) : Server M E :=
  { S with history := S.history.enter job }

def issue (S : Server M E) (job : Job E) : Server M E :=
  { S with
    nextTicket := S.nextTicket + 1
    history := S.history.issue S.nextTicket job }

def take (S : Server M E) (jobs : List (Job E)) : Server M E :=
  { S with history := S.history.take jobs }

/-- One step of the line's protocol. -/
inductive Step (machine : SyncMachineStep M E) (S : Server M E) :
    Label → Server M E → Prop where
  -- Nothing the protocol looks at changes.
  | stutter (label : Label) : Step machine S label S
  | refuse {label : Label} {job : Job E} (closed : S.terminated = true) :
      Step machine S label (S.resolve job none false)
  | queue {label : Label} {job : Job E} (opened : S.terminated = false)
      (busy : S.draining = true) :
      Step machine S label
        ((({ S with entries := S.entries ++ [(job, S.nextTicket)] } :
          Server M E).enter job).issue job)
  | takeOlder {c : Nat} {label : Label} {job older : Job E}
      {olderTicket : TicketId} {rest : List (Job E × TicketId)}
      (opened : S.terminated = false) (free : S.draining = false)
      (front : S.entries = (older, olderTicket) :: rest)
      (vacant : S.stages c = none) :
      Step machine S label
        ((((({ S with
          draining := true
          entries := rest ++ [(job, S.nextTicket)] } :
          Server M E).enter job).issue job).take [older]).move c
          (some (.running older (some olderTicket) false)))
  | takeOwn {c : Nat} {label : Label} {job : Job E}
      (opened : S.terminated = false) (free : S.draining = false)
      (empty : S.entries = []) (vacant : S.stages c = none) :
      Step machine S label
        (((({ S with draining := true } :
          Server M E).enter job).take [job]).move c
          (some (.running job none false)))
  | skip {c : Nat} {label : Label} {job : Job E} {ticket : Option TicketId}
      (at_run : S.stages c = some (.running job ticket true)) :
      Step machine S label (S.move c (some (.resolving job ticket false true)))
  | beginStep {c : Nat} {label : Label} {job : Job E}
      {ticket : Option TicketId}
      (at_run : S.stages c = some (.running job ticket false))
      (unlocked : S.held = false) :
      Step machine S label
        (({ S with
            held := true
            history := S.history.begin job } : Server M E).move c
          (some (.stepping job ticket)))
  | stepReturns {c : Nat} {label : Label} {job : Job E}
      {ticket : Option TicketId} {core : M} {accepted : Bool}
      (at_step : S.stages c = some (.stepping job ticket))
      (returns : machine.returns S.machine job.event core accepted) :
      Step machine S label
        (({ S with
            machine := core
            held := false
            history := S.history.complete job accepted } : Server M E).move c
          (some (.resolving job ticket accepted (machine.isTerminated core))))
  | stepPanics {c : Nat} {job : Job E} {ticket : Option TicketId} {core : M}
      (at_step : S.stages c = some (.stepping job ticket))
      (panics : machine.panics S.machine job.event core) :
      Step machine S ⟨c, .panics⟩
        (({ S with
            machine := core
            held := false } : Server M E).move c (some (.panicked job ticket)))
  | resolve {c : Nat} {label : Label} {job : Job E} {ticket : Option TicketId}
      {accepted terminated : Bool}
      (at_resolve : S.stages c =
        some (.resolving job ticket accepted terminated)) :
      Step machine S label
        ((S.resolve job ticket accepted).move c (some (.looping terminated)))
  | next {c : Nat} {label : Label} {terminated : Bool} {job : Job E}
      {ticket : TicketId} {rest : List (Job E × TicketId)}
      (at_loop : S.stages c = some (.looping terminated))
      (front : S.entries = (job, ticket) :: rest) :
      Step machine S label
        ((({ S with
            entries := rest
            terminated := terminated } : Server M E).take [job]).move c
          (some (.running job (some ticket) terminated)))
  | release {c : Nat} {label : Label} {terminated : Bool}
      (at_loop : S.stages c = some (.looping terminated))
      (empty : S.entries = []) :
      Step machine S label
        (({ S with
            draining := false
            terminated := terminated } : Server M E).move c none)
  | pendingDrop {c : Nat} {label : Label} {job : Job E}
      {ticket : Option TicketId}
      (at_panic : S.stages c = some (.panicked job ticket)) :
      Step machine S label
        ((S.resolve job ticket false).move c (some (.reading job ticket)))
  | guardReads {c : Nat} {label : Label} {job : Job E}
      {ticket : Option TicketId}
      (at_guard : S.stages c = some (.reading job ticket)) :
      Step machine S label
        (S.move c
          (some (.handing job ticket (machine.isTerminated S.machine))))
  | guardHands {c : Nat} {label : Label} {job : Job E}
      {ticket : Option TicketId} {terminated : Bool}
      {stranded rest : List (Job E × TicketId)}
      (at_guard : S.stages c = some (.handing job ticket terminated))
      (split : stranded ++ rest = S.entries)
      (kept : (S.terminated || terminated) = false → stranded = [])
      (emptied : (S.terminated || terminated) = true → rest = []) :
      Step machine S label
        ((({ S with
            entries := rest
            draining := false
            terminated := S.terminated || terminated } :
            Server M E).take (stranded.map Prod.fst)).move c
          (some (.stranding stranded)))
  | strand {c : Nat} {label : Label} {job : Job E} {ticket : TicketId}
      {stranded : List (Job E × TicketId)}
      (at_strand : S.stages c = some (.stranding ((job, ticket) :: stranded))) :
      Step machine S label
        ((S.resolve job (some ticket) false).move c
          (some (.stranding stranded)))
  | stranded {c : Nat} {label : Label}
      (at_strand : S.stages c = some (.stranding [])) :
      Step machine S label (S.move c none)
  -- A guard acts on a drain that released the turn, or lost its job.
  | foreign {c : Nat} :
      Step machine S ⟨c, .guardActs⟩ (S.move c (some .foreignReading))
  | foreignReads {c : Nat} {label : Label}
      (at_guard : S.stages c = some .foreignReading) :
      Step machine S label
        (S.move c (some (.foreignHanding (machine.isTerminated S.machine))))
  | foreignHands {c : Nat} {label : Label} {terminated : Bool}
      {stranded rest : List (Job E × TicketId)}
      (caller : label.caller = c)
      (at_guard : S.stages c = some (.foreignHanding terminated))
      (split : stranded ++ rest = S.entries)
      (kept : (S.terminated || terminated) = false → stranded = [])
      (emptied : (S.terminated || terminated) = true → rest = []) :
      Step machine S label
        ((({ S with
            entries := rest
            draining := false
            terminated := S.terminated || terminated } :
            Server M E).take (stranded.map Prod.fst)).move c
          (some (.stranding stranded)))

end Server

/-- The stage of the protocol a phase of a drain is in: waking the waiters of
the room list is no part of the protocol. -/
def Phase.stage : Phase E → Option (Stage E)
  | .running job ticket terminated => some (.running job ticket terminated)
  | .stepping job ticket => some (.stepping job ticket)
  | .resolving job ticket accepted terminated =>
      some (.resolving job ticket accepted terminated)
  | .looping terminated => some (.looping terminated)
  | .waking _ job ticket terminated =>
      some (.running job (some ticket) terminated)
  | .finishing _ | .dropping => none
  | .panicked job ticket => some (.panicked job ticket)
  | .reading (.ownStep job ticket) => some (.reading job ticket)
  | .reading (.foreign _) => some .foreignReading
  | .handing (.ownStep job ticket) terminated =>
      some (.handing job ticket terminated)
  | .handing (.foreign _) terminated => some (.foreignHanding terminated)
  | .stranding _ stranded _ => some (.stranding stranded)
  | .rousing _ _ => none

def Frame.stage : Frame E → Option (Stage E)
  | .draining _ phase => phase.stage
  | .idle | .offering .. | .offered .. | .polling .. => none

namespace State

variable {N : Nat}

/-- The line as the locks of a scheduler hold it. -/
def server (s : State M E N) : Server M E :=
  { machine := s.machine
    started := s.started
    held := s.held
    entries := s.queue.entries
    draining := s.queue.draining
    terminated := s.queue.terminated
    accepted := fun ticket => (s.tickets ticket).accepted
    nextTicket := s.nextTicket
    history := s.history
    stages := fun c => (s.frames c).stage }

theorem stage_of {s : State M E N} {c : Nat} {frame : Frame E}
    (at_frame : s.frames c = frame) : s.server.stages c = frame.stage :=
  congrArg Frame.stage at_frame

@[simp] theorem server_put (s : State M E N) (c : Nat) (frame : Frame E) :
    (s.put c frame).server = s.server.move c frame.stage := by
  simp only [server, put, Server.move, Server.mk.injEq, true_and]
  funext other
  by_cases same : other = c
  · subst same
    simp
  · simp [same]

@[simp] theorem server_resolve (s : State M E N) (job : Job E)
    (ticket : Option TicketId) (accepted : Bool) :
    (s.resolve job ticket accepted).server =
      s.server.resolve job ticket accepted := by
  cases ticket with
  | none => rfl
  | some ticket =>
      simp only [server, resolve, Server.resolve, Server.mk.injEq, true_and,
        and_true]
      funext other
      by_cases same : other = ticket
      · subst same
        simp
      · simp [same]

@[simp] theorem server_enter (s : State M E N) (job : Job E) :
    (s.enter job).server = s.server.enter job := rfl

@[simp] theorem server_issue (s : State M E N) (job : Job E) :
    (s.issue job).server = s.server.issue job := rfl

@[simp] theorem server_take (s : State M E N) (jobs : List (Job E)) :
    (s.take jobs).server = s.server.take jobs := rfl

@[simp] theorem server_wake (s : State M E N) (waiter : WaiterId) :
    (s.wake waiter).server = s.server := rfl

@[simp] theorem server_hold (s : State M E N) (completion : Nat)
    (wait : FifoWait E) : (s.hold completion wait).server = s.server := rfl

@[simp] theorem server_queue (s : State M E N) (queue : FifoQueue E N) :
    ({ s with queue := queue } : State M E N).server =
      { s.server with
        entries := queue.entries
        draining := queue.draining
        terminated := queue.terminated } := rfl

/-- Polling a ticket changes at most its waker. -/
@[simp] theorem server_pollTicket (s : State M E N) (ticket : TicketId)
    (waker : Waker) :
    ({ s with
        tickets := Function.update s.tickets ticket
          ((s.tickets ticket).poll waker).2 } : State M E N).server =
      s.server := by
  simp only [server, Server.mk.injEq, true_and, and_true]
  funext other
  by_cases same : other = ticket
  · subst same
    simp
  · simp [same]

/-- The ring buffer is well formed. -/
def RingOk (s : State M E N) : Prop := s.queue.Wf

end State

/-- Moving a caller to the stage it is in changes nothing. -/
theorem Server.move_eq_self {S : Server M E} {c : Nat}
    {stage : Option (Stage E)} (same : S.stages c = stage) :
    S.move c stage = S := by
  subst same
  simp [Server.move]


section Refinement

variable {N : Nat} {machine : SyncMachineStep M E} {s : State M E N}

/-- What `offer` does to the line. -/
private theorem offer_refines (fits : N ≤ usizeMax) (ring : s.RingOk)
    {c : Nat} {caller : Caller} {job : Job E} {queue : FifoQueue E N}
    {outcome : OfferOutcome E} (at_offer : s.frames c = .offering caller job)
    (locked : s.queue.offer job s.nextTicket caller.waiter = (queue, outcome)) :
    (({ s with queue := queue } : State M E N).afterOffer c caller job
        outcome).RingOk ∧
      Server.Step machine s.server ⟨c, .advances⟩
        (({ s with queue := queue } : State M E N).afterOffer c caller job
          outcome).server := by
  have vacant : s.server.stages c = none := by
    simp [State.server, at_offer, Frame.stage]
  have spec := FifoQueue.offer_spec fits ring job s.nextTicket caller.waiter
  rw [locked] at spec
  cases spec with
  | terminated closed =>
      refine ⟨ring, ?_⟩
      simp only [State.afterOffer, State.server_put, State.server_resolve]
      rw [Server.move_eq_self (by exact vacant)]
      exact .refuse closed
  | full opened busy atCapacity registered =>
      subst registered
      have wf : (s.queue.register caller.waiter).Wf := by
        simpa only [State.RingOk, FifoQueue.Wf, FifoQueue.register_events,
          FifoQueue.register_entries] using ring
      refine ⟨wf, ?_⟩
      have step : Server.Step machine s.server ⟨c, .advances⟩ s.server :=
        .stutter _
      convert step using 1
      simp only [State.afterOffer, State.server_put, State.server_queue,
        FifoQueue.register_entries, FifoQueue.register_draining,
        FifoQueue.register_terminated]
      exact Server.move_eq_self vacant
  | queued opened busy wf entries draining terminated room =>
      refine ⟨wf, ?_⟩
      have step := @Server.Step.queue M E machine s.server ⟨c, .advances⟩ job
        opened busy
      convert step using 1
      simp only [State.afterOffer, State.server_put, State.server_issue,
        State.server_enter, State.server_queue]
      rw [Server.move_eq_self (by exact vacant), entries, draining, terminated,
        ← opened, ← busy]
      rfl
  | drainOlder opened free front wf entries draining terminated room =>
      refine ⟨wf, ?_⟩
      have step := @Server.Step.takeOlder M E machine s.server c
        ⟨c, .advances⟩ job _ _ _ opened free front vacant
      convert step using 1
      simp only [State.afterOffer, State.server_put, State.server_issue,
        State.server_enter, State.server_take, State.server_queue]
      rw [entries, draining, terminated, ← opened]
      rfl
  | drainOwn opened free empty =>
      refine ⟨ring, ?_⟩
      have step := @Server.Step.takeOwn M E machine s.server c
        ⟨c, .advances⟩ job opened free empty vacant
      convert step using 1
      simp only [State.afterOffer, State.server_put, State.server_enter,
        State.server_take, State.server_queue]
      rfl

/-- What an iteration of the drain loop does to the line. -/
private theorem loop_refines (fits : N ≤ usizeMax) (ring : s.RingOk)
    {c : Nat} {drain : Drain E} {terminated : Bool} {queue : FifoQueue E N}
    {next : Option (Job E × TicketId)} {room : List WaiterId}
    (at_loop : s.frames c = .draining drain (.looping terminated))
    (locked : s.queue.drainNext terminated = (queue, next, room)) :
    (({ s with queue := queue } : State M E N).afterLoop c drain terminated
        room next).RingOk ∧
      Server.Step machine s.server ⟨c, .advances⟩
        (({ s with queue := queue } : State M E N).afterLoop c drain terminated
          room next).server := by
  have stage : s.server.stages c = some (.looping terminated) := by
    simp [State.server, at_loop, Frame.stage, Phase.stage]
  have spec := FifoQueue.drainNext_spec fits ring terminated
  rw [locked] at spec
  cases spec with
  | @next entry front wf draining closed room =>
      obtain ⟨job, ticket⟩ := entry
      refine ⟨wf, ?_⟩
      have step := @Server.Step.next M E machine s.server c ⟨c, .advances⟩
        terminated job ticket _ stage front
      convert step using 1
      simp only [State.afterLoop, State.server_put, State.server_take,
        State.server_queue]
      rw [draining, closed]
      rfl
  | done empty wf entries draining closed room =>
      refine ⟨wf, ?_⟩
      have step := @Server.Step.release M E machine s.server c ⟨c, .advances⟩
        terminated stage empty
      convert step using 1
      simp only [State.afterLoop, State.server_put, State.server_queue]
      rw [entries, draining, closed, ← empty]
      rfl

/-- What the guard's critical section does to the line. -/
private theorem guardHands_refines (fits : N ≤ usizeMax) (ring : s.RingOk)
    {c : Nat} {drain : Drain E} {cause : Cause E} {terminated : Bool}
    {queue : FifoQueue E N} {stranded : List (Job E × TicketId)}
    {room : List WaiterId} {handover : Handover E}
    (at_guard : s.frames c = .draining drain (.handing cause terminated))
    (locked : s.queue.unwind terminated = (queue, stranded, room)) :
    queue.Wf ∧
      Server.Step machine s.server ⟨c, .advances⟩
        ((({ s with queue := queue } : State M E N).take
            (stranded.map Prod.fst)).put c
          (.draining drain (.stranding handover stranded room))).server := by
  have spec := FifoQueue.unwind_spec fits ring terminated
  rw [locked] at spec
  refine ⟨spec.wf, ?_⟩
  cases cause with
  | ownStep job ticket =>
      have step := @Server.Step.guardHands M E machine s.server c
        ⟨c, .advances⟩ job ticket terminated stranded queue.entries
        (State.stage_of at_guard) spec.entries spec.stranded_nil
        spec.entries_nil
      convert step using 1
      simp only [State.server_put, State.server_take, State.server_queue]
      rw [spec.draining, spec.terminated]
      rfl
  | foreign returning =>
      have step := @Server.Step.foreignHands M E machine s.server c
        ⟨c, .advances⟩ terminated stranded queue.entries rfl
        (State.stage_of at_guard) spec.entries spec.stranded_nil
        spec.entries_nil
      convert step using 1
      simp only [State.server_put, State.server_take, State.server_queue]
      rw [spec.draining, spec.terminated]
      rfl

/-- A caller that moves between frames of one stage leaves the line alone. -/
private theorem stays {c : Nat} {frame next : Frame E} {label : Label}
    (at_frame : s.frames c = frame) (same : next.stage = frame.stage) :
    Server.Step machine s.server label (s.server.move c next.stage) := by
  rw [Server.move_eq_self ((State.stage_of at_frame).trans same.symm)]
  exact .stutter _

/-- Every interleaving is a run of the line's protocol: one step of a caller
is one step of the protocol, and the ring stays well formed. -/
theorem Step.refines (fits : N ≤ usizeMax) {label : Label} {t : State M E N}
    (step : Step machine s label t) (ring : s.RingOk) :
    t.RingOk ∧ Server.Step machine s.server label t.server := by
  cases step with
  | offer at_offer locked => exact offer_refines fits ring at_offer locked
  | loop at_loop locked => exact loop_refines fits ring at_loop locked
  | guardHands at_guard locked =>
      exact guardHands_refines fits ring at_guard locked
  | pollDone idle held => exact ⟨ring, .stutter _⟩
  | dropRoom idle held => exact ⟨ring, .stutter _⟩
  | dropQueued idle held => exact ⟨ring, .stutter _⟩
  | dropDone idle held => exact ⟨ring, .stutter _⟩
  | pollQueued waker idle held =>
      rw [State.server_pollTicket]
      exact ⟨ring, .stutter _⟩
  | skip at_run =>
      rw [State.server_put]
      exact ⟨ring, .skip (State.stage_of at_run)⟩
  | beginStep at_run unlocked =>
      rw [State.server_put]
      exact ⟨ring, .beginStep (State.stage_of at_run) unlocked⟩
  | stepReturns at_step returns =>
      rw [State.server_put]
      exact ⟨ring, .stepReturns (State.stage_of at_step) returns⟩
  | stepPanics at_step panics =>
      rw [State.server_put]
      exact ⟨ring, .stepPanics (State.stage_of at_step) panics⟩
  | resolve at_resolve =>
      rw [State.server_put, State.server_resolve]
      exact ⟨ring, .resolve (State.stage_of at_resolve)⟩
  | pendingDrop at_panic =>
      rw [State.server_put, State.server_resolve]
      exact ⟨ring, .pendingDrop (State.stage_of at_panic)⟩
  | @guardReads c drain cause at_guard unlocked =>
      rw [State.server_put]
      cases cause with
      | ownStep job ticket =>
          exact ⟨ring, .guardReads (State.stage_of at_guard)⟩
      | foreign returning =>
          exact ⟨ring, .foreignReads (State.stage_of at_guard)⟩
  | strand at_strand =>
      rw [State.server_put, State.server_resolve]
      exact ⟨ring, .strand (State.stage_of at_strand)⟩
  | stranded at_strand =>
      rw [State.server_put]
      exact ⟨ring, .stranded (State.stage_of at_strand)⟩
  | guardActs at_drop =>
      rw [State.server_put]
      exact ⟨ring, .foreign⟩
  | wakerPanics at_wake =>
      rw [State.server_put]
      exact ⟨ring, .foreign⟩
  | lastWakerPanics at_wake =>
      rw [State.server_put]
      exact ⟨ring, .foreign⟩
  -- The other steps change nothing the protocol looks at.
  | submit event here | trySubmit event here | pollRoom waker here _
  | wakeNext here | runNext here | wakeLast here | finish here
  | guardReturns here | rouse here | rousedReturning here _ | unwound here
  | unwoundPoll here | returnDone here | returnQueued here | returnRoom here
  | returnFull here | polledRoom here | polledDone here | polledQueued here =>
      rw [State.server_put]
      exact ⟨ring, stays here rfl⟩
  | pollTicket here =>
      rw [State.server_put, State.server_hold, State.server_pollTicket]
      exact ⟨ring, stays here rfl⟩

theorem State.cell_ringOk (initial : M) :
    (State.cell machine initial : State M E N).RingOk :=
  (FifoQueue.Wf.of_represents EventQueue.new_represents).1

end Refinement

end SmlRs.Scheduler
