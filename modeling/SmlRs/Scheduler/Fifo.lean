/-
Module: SmlRs.Scheduler.Fifo
Purpose: The interleavings of every caller of one `FifoScheduler` machine, one
  critical section at a time.
Trusted boundary: none
Main exports: State, Step, State.cell, Label, Disciplined, PanicFree,
  Reachable
-/
import Mathlib.Logic.Function.Basic
import SmlRs.Scheduler.Shared
import SmlRs.Lib.Trace

namespace SmlRs.Scheduler

/-!
A step is one critical section together with the thread-local work up to the
next lock, so taking a waker out and waking it is one step.  Every call of
`submit`, `try_submit` or `poll` runs in a frame of its own.  A call made from
inside a running step, or by a waker, is a call like any other: the model does
not make the frame it came from wait, so it has every interleaving of nested
calls and more.

`std::thread::panicking()` is a flag of the thread and not of the drain.  When
a drain whose own steps all returned drops its guard, the flag may have either
value, and the two steps carry different labels.
-/

/-- The call a frame works for. -/
inductive Caller where
  | submit
  | trySubmit
  | poll (completion : Nat) (waiter : WaiterId) (waker : Waker)
deriving DecidableEq, Repr

/-- The waiter `offer` is given. -/
def Caller.waiter : Caller → Option WaiterId
  | .submit | .trySubmit => none
  | .poll _ waiter _ => some waiter

/-- `Offer<E>`; the event `Full` hands back is the job of the frame. -/
inductive OfferResult where
  | done (accepted : Bool)
  | queued (ticket : TicketId)
  | full
deriving DecidableEq, Repr

/-- Why the guard acts: the drain's own step panicked, or the thread is
unwinding for another reason. In the second case the drain either returns
normally in the end or is unwound by the panic of a waker. -/
inductive Cause (E : Type*) where
  | ownStep (job : Job E) (ticket : Option TicketId)
  | foreign (returning : Bool)
deriving DecidableEq, Repr

/-- What the guard found under the queue lock, kept for the record. -/
structure Handover (E : Type*) where
  cause : Cause E
  terminated : Bool
  behind : List (Job E × TicketId)
  registered : List (WaiterId × Nat)

/-- The fixed part of a call of `drain`: for whom, and the ticket of the
caller's own event when an older one is drained first. -/
structure Drain (E : Type*) where
  caller : Caller
  job : Job E
  own : Option TicketId
  accepted : Option Bool

/-- Where a call of `drain` stands. -/
inductive Phase (E : Type*) where
  | running (job : Job E) (ticket : Option TicketId) (terminated : Bool)
  | stepping (job : Job E) (ticket : Option TicketId)
  | resolving (job : Job E) (ticket : Option TicketId)
      (accepted terminated : Bool)
  | looping (terminated : Bool)
  | waking (room : List WaiterId) (job : Job E) (ticket : TicketId)
      (terminated : Bool)
  | finishing (room : List WaiterId)
  | dropping
  | panicked (job : Job E) (ticket : Option TicketId)
  | reading (cause : Cause E)
  | handing (cause : Cause E) (terminated : Bool)
  | stranding (handover : Handover E) (stranded : List (Job E × TicketId))
      (room : List WaiterId)
  | rousing (handover : Handover E) (room : List WaiterId)

/-- Where a caller stands. -/
inductive Frame (E : Type*) where
  | idle
  | offering (caller : Caller) (job : Job E)
  | draining (drain : Drain E) (phase : Phase E)
  | offered (caller : Caller) (job : Job E) (result : OfferResult)
  | polling (completion : Nat) (ticket : TicketId) (waker : Waker)

/-- `FifoWait<M, N>`. -/
inductive FifoWait (E : Type*) where
  | done (accepted : Bool)
  | queued (ticket : TicketId)
  | room (job : Job E) (waiter : WaiterId)

/-- A completion handle: not created yet, in its owner's hands, mutably
borrowed by a poll in progress, or dropped. -/
inductive Completion (E : Type*) where
  | free
  | held (wait : FifoWait E)
  | borrowed
  | dropped

/-- One determined result: of which job, through which ticket. -/
structure Resolution (E : Type*) where
  job : Job E
  ticket : Option TicketId
  accepted : Bool

/-- What has happened so far. No code reads it. -/
structure History (E : Type*) where
  /-- Jobs in the order in which `offer` admitted them under the lock. -/
  admitted : List (Job E) := []
  /-- Tickets with the job they were created for. -/
  issued : List (TicketId × Job E) := []
  /-- Jobs handed to a drain or stranded, in order. -/
  taken : List (Job E) := []
  /-- Jobs whose step began, in order. -/
  stepped : List (Job E) := []
  /-- Jobs whose step returned, with its acceptance. -/
  returned : List (Job E × Bool) := []
  resolutions : List (Resolution E) := []

namespace History

variable {E : Type*}

/-- Records the admission of a job. -/
def enter (history : History E) (job : Job E) : History E :=
  { history with admitted := history.admitted ++ [job] }

/-- Records the ticket created for a job. -/
def issue (history : History E) (ticket : TicketId) (job : Job E) : History E :=
  { history with issued := history.issued ++ [(ticket, job)] }

/-- Records that jobs left the queue. -/
def take (history : History E) (jobs : List (Job E)) : History E :=
  { history with taken := history.taken ++ jobs }

/-- Records that a job's step began. -/
def begin (history : History E) (job : Job E) : History E :=
  { history with stepped := history.stepped ++ [job] }

/-- Records that a job's step returned. -/
def complete (history : History E) (job : Job E) (accepted : Bool) : History E :=
  { history with returned := history.returned ++ [(job, accepted)] }

def resolve (history : History E) (job : Job E) (ticket : Option TicketId)
    (accepted : Bool) : History E :=
  { history with
    resolutions := history.resolutions ++
      [{ job := job, ticket := ticket, accepted := accepted }] }

end History

/-- One machine with everything its callers share and where they stand. -/
structure State (M E : Type*) (N : Nat) where
  machine : M
  /-- Whether a step holds the machine lock. -/
  held : Bool
  queue : FifoQueue E N
  tickets : TicketId → Ticket
  waiters : WaiterId → Waiter
  completions : Nat → Completion E
  frames : Nat → Frame E
  nextSerial : Nat
  nextTicket : TicketId
  nextWaiter : WaiterId
  /-- What `start` returned. -/
  started : Bool
  history : History E

/-- What a step is about, for conditions on runs. -/
inductive Action where
  | submits
  | polls (completion : Nat)
  | drops (completion : Nat)
  | advances
  | panics
  | guardActs
  | unwinds
deriving DecidableEq, Repr

structure Label where
  caller : Nat
  action : Action
deriving DecidableEq, Repr

variable {M E : Type*}

namespace State

variable {N : Nat}

/-- `FifoScheduler::cell`: a machine whose initialization failed is closed
like one in `X`. -/
def cell (machine : SyncMachineStep M E) (initial : M) : State M E N :=
  let (core, started) := machine.start initial
  { machine := core
    held := false
    queue :=
      { events := .new
        draining := false
        terminated := !started || machine.isTerminated core
        room := [] }
    tickets := fun _ => {}
    waiters := fun _ => {}
    completions := fun _ => .free
    frames := fun _ => .idle
    nextSerial := 0
    nextTicket := 0
    nextWaiter := 0
    started := started
    history := {} }

/-- Moves a caller to another frame. -/
def put (s : State M E N) (caller : Nat) (frame : Frame E) : State M E N :=
  { s with frames := Function.update s.frames caller frame }

/-- Resolves a job's ticket, when it has one, and records the result. -/
def resolve (s : State M E N) (job : Job E) (ticket : Option TicketId)
    (accepted : Bool) : State M E N :=
  { s with
    tickets :=
      match ticket with
      | some ticket =>
          Function.update s.tickets ticket
            ((s.tickets ticket).resolve accepted)
      | none => s.tickets
    history := s.history.resolve job ticket accepted }

def enter (s : State M E N) (job : Job E) : State M E N :=
  { s with history := s.history.enter job }

/-- Creates the ticket of a queued job. -/
def issue (s : State M E N) (job : Job E) : State M E N :=
  { s with
    nextTicket := s.nextTicket + 1
    history := s.history.issue s.nextTicket job }

def take (s : State M E N) (jobs : List (Job E)) : State M E N :=
  { s with history := s.history.take jobs }

def wake (s : State M E N) (waiter : WaiterId) : State M E N :=
  { s with waiters := Function.update s.waiters waiter (s.waiters waiter).wake }

def hold (s : State M E N) (completion : Nat) (wait : FifoWait E) :
    State M E N :=
  { s with completions :=
      Function.update s.completions completion (.held wait) }

/-- `offer` after its critical section, by the branch it took. -/
def afterOffer (s : State M E N) (c : Nat) (caller : Caller) (job : Job E) :
    OfferOutcome E → State M E N
  | .terminated =>
      (s.resolve job none false).put c (.offered caller job (.done false))
  | .full => s.put c (.offered caller job .full)
  | .queued =>
      ((s.enter job).issue job).put c
        (.offered caller job (.queued s.nextTicket))
  | .deferFailed => s.put c (.offered caller job (.done false))
  | .drainOlder older olderTicket =>
      (((s.enter job).issue job).take [older]).put c
        (.draining { caller, job, own := some s.nextTicket, accepted := none }
          (.running older (some olderTicket) false))
  | .drainOlderDeferFailed older olderTicket =>
      (((s.issue job).resolve job (some s.nextTicket) false).take [older]).put c
        (.draining { caller, job, own := some s.nextTicket, accepted := none }
          (.running older (some olderTicket) false))
  | .drainOwn =>
      ((s.enter job).take [job]).put c
        (.draining { caller, job, own := none, accepted := none }
          (.running job none false))

/-- The drain loop after its critical section. -/
def afterLoop (s : State M E N) (c : Nat) (drain : Drain E)
    (terminated : Bool) (room : List WaiterId) :
    Option (Job E × TicketId) → State M E N
  | some (job, ticket) =>
      (s.take [job]).put c
        (.draining drain (.waking room job ticket terminated))
  | none => s.put c (.draining drain (.finishing room))

end State

/-- What `offer` returns after its drain: the result of its own event, or the
ticket of its own event when an older one ran first. -/
def Drain.result (drain : Drain E) : OfferResult :=
  match drain.own with
  | some ticket => .queued ticket
  | none => .done (drain.accepted.getD false)

/-- The first result of a drain is the one `offer` returns. -/
def Drain.accept (drain : Drain E) (accepted : Bool) : Drain E :=
  { drain with accepted := some (drain.accepted.getD accepted) }

/-- One step of one caller. -/
inductive Step {N : Nat} (machine : SyncMachineStep M E) (s : State M E N) :
    Label → State M E N → Prop where
  | submit {c : Nat} (event : E) (idle : s.frames c = .idle) :
      Step machine s ⟨c, .submits⟩
        (({ s with nextSerial := s.nextSerial + 1 } : State M E N).put c
          (.offering .submit { event, serial := s.nextSerial }))
  | trySubmit {c : Nat} (event : E) (idle : s.frames c = .idle) :
      Step machine s ⟨c, .submits⟩
        (({ s with nextSerial := s.nextSerial + 1 } : State M E N).put c
          (.offering .trySubmit { event, serial := s.nextSerial }))
  -- `poll` stores its waker, then takes the waiting event out and offers it.
  | pollRoom {c completion waiter : Nat} {job : Job E} (waker : Waker)
      (idle : s.frames c = .idle)
      (held : s.completions completion = .held (.room job waiter)) :
      Step machine s ⟨c, .polls completion⟩
        (({ s with
            waiters := Function.update s.waiters waiter
              ((s.waiters waiter).update waker)
            completions :=
              Function.update s.completions completion .borrowed } :
            State M E N).put c
          (.offering (.poll completion waiter waker) job))
  | pollQueued {c completion ticket : Nat} (waker : Waker)
      (idle : s.frames c = .idle)
      (held : s.completions completion = .held (.queued ticket)) :
      Step machine s ⟨c, .polls completion⟩
        { s with
          tickets := Function.update s.tickets ticket
            ((s.tickets ticket).poll waker).2 }
  | pollDone {c completion : Nat} {accepted : Bool}
      (idle : s.frames c = .idle)
      (held : s.completions completion = .held (.done accepted)) :
      Step machine s ⟨c, .polls completion⟩ s
  | dropRoom {c completion waiter : Nat} {job : Job E}
      (idle : s.frames c = .idle)
      (held : s.completions completion = .held (.room job waiter)) :
      Step machine s ⟨c, .drops completion⟩
        { s with
          queue := s.queue.forget waiter
          completions := Function.update s.completions completion .dropped }
  | dropQueued {c completion ticket : Nat} (idle : s.frames c = .idle)
      (held : s.completions completion = .held (.queued ticket)) :
      Step machine s ⟨c, .drops completion⟩
        { s with
          completions := Function.update s.completions completion .dropped }
  | dropDone {c completion : Nat} {accepted : Bool}
      (idle : s.frames c = .idle)
      (held : s.completions completion = .held (.done accepted)) :
      Step machine s ⟨c, .drops completion⟩
        { s with
          completions := Function.update s.completions completion .dropped }
  | offer {c : Nat} {caller : Caller} {job : Job E} {queue : FifoQueue E N}
      {outcome : OfferOutcome E} (at_offer : s.frames c = .offering caller job)
      (locked : s.queue.offer job s.nextTicket caller.waiter =
        (queue, outcome)) :
      Step machine s ⟨c, .advances⟩
        (({ s with queue := queue } : State M E N).afterOffer c caller job
          outcome)
  -- `Pending::run` with a machine that already terminated.
  | skip {c : Nat} {drain : Drain E} {job : Job E} {ticket : Option TicketId}
      (at_run : s.frames c = .draining drain (.running job ticket true)) :
      Step machine s ⟨c, .advances⟩
        (s.put c (.draining drain (.resolving job ticket false true)))
  | beginStep {c : Nat} {drain : Drain E} {job : Job E}
      {ticket : Option TicketId}
      (at_run : s.frames c = .draining drain (.running job ticket false))
      (unlocked : s.held = false) :
      Step machine s ⟨c, .advances⟩
        (({ s with
            held := true
            history := s.history.begin job } : State M E N).put c
          (.draining drain (.stepping job ticket)))
  | stepReturns {c : Nat} {drain : Drain E} {job : Job E}
      {ticket : Option TicketId} {core : M} {accepted : Bool}
      (at_step : s.frames c = .draining drain (.stepping job ticket))
      (returns : machine.returns s.machine job.event core accepted) :
      Step machine s ⟨c, .advances⟩
        (({ s with
            machine := core
            held := false
            history := s.history.complete job accepted } :
            State M E N).put c
          (.draining drain
            (.resolving job ticket accepted (machine.isTerminated core))))
  | stepPanics {c : Nat} {drain : Drain E} {job : Job E}
      {ticket : Option TicketId} {core : M}
      (at_step : s.frames c = .draining drain (.stepping job ticket))
      (panics : machine.panics s.machine job.event core) :
      Step machine s ⟨c, .panics⟩
        (({ s with
            machine := core
            held := false } : State M E N).put c
          (.draining drain (.panicked job ticket)))
  | resolve {c : Nat} {drain : Drain E} {job : Job E}
      {ticket : Option TicketId} {accepted terminated : Bool}
      (at_resolve : s.frames c =
        .draining drain (.resolving job ticket accepted terminated)) :
      Step machine s ⟨c, .advances⟩
        ((s.resolve job ticket accepted).put c
          (.draining (drain.accept accepted) (.looping terminated)))
  | loop {c : Nat} {drain : Drain E} {terminated : Bool}
      {queue : FifoQueue E N} {next : Option (Job E × TicketId)}
      {room : List WaiterId}
      (at_loop : s.frames c = .draining drain (.looping terminated))
      (locked : s.queue.drainNext terminated = (queue, next, room)) :
      Step machine s ⟨c, .advances⟩
        (({ s with queue := queue } : State M E N).afterLoop c drain terminated
          room next)
  | wakeNext {c : Nat} {drain : Drain E} {waiter : WaiterId}
      {room : List WaiterId} {job : Job E} {ticket : TicketId}
      {terminated : Bool}
      (at_wake : s.frames c =
        .draining drain (.waking (waiter :: room) job ticket terminated)) :
      Step machine s ⟨c, .advances⟩
        ((s.wake waiter).put c
          (.draining drain (.waking room job ticket terminated)))
  | runNext {c : Nat} {drain : Drain E} {job : Job E} {ticket : TicketId}
      {terminated : Bool}
      (at_wake : s.frames c =
        .draining drain (.waking [] job ticket terminated)) :
      Step machine s ⟨c, .advances⟩
        (s.put c (.draining drain (.running job (some ticket) terminated)))
  | wakeLast {c : Nat} {drain : Drain E} {waiter : WaiterId}
      {room : List WaiterId}
      (at_wake : s.frames c = .draining drain (.finishing (waiter :: room))) :
      Step machine s ⟨c, .advances⟩
        ((s.wake waiter).put c (.draining drain (.finishing room)))
  | finish {c : Nat} {drain : Drain E}
      (at_wake : s.frames c = .draining drain (.finishing [])) :
      Step machine s ⟨c, .advances⟩ (s.put c (.draining drain .dropping))
  -- `Unwinding::drop` returns at once: the thread is not panicking.
  | guardReturns {c : Nat} {drain : Drain E}
      (at_drop : s.frames c = .draining drain .dropping) :
      Step machine s ⟨c, .advances⟩
        (s.put c (.offered drain.caller drain.job drain.result))
  -- The thread was unwinding before this drain ran.
  | guardActs {c : Nat} {drain : Drain E}
      (at_drop : s.frames c = .draining drain .dropping) :
      Step machine s ⟨c, .guardActs⟩
        (s.put c (.draining drain (.reading (.foreign true))))
  -- A waker panics through the drain.
  | wakerPanics {c : Nat} {drain : Drain E} {waiter : WaiterId}
      {room : List WaiterId} {job : Job E} {ticket : TicketId}
      {terminated : Bool}
      (at_wake : s.frames c =
        .draining drain (.waking (waiter :: room) job ticket terminated)) :
      Step machine s ⟨c, .guardActs⟩
        ((s.wake waiter).put c
          (.draining drain (.reading (.foreign false))))
  | lastWakerPanics {c : Nat} {drain : Drain E} {waiter : WaiterId}
      {room : List WaiterId}
      (at_wake : s.frames c = .draining drain (.finishing (waiter :: room))) :
      Step machine s ⟨c, .guardActs⟩
        ((s.wake waiter).put c
          (.draining drain (.reading (.foreign false))))
  -- The step panicked: `Pending::drop` runs first, then the guard.
  | pendingDrop {c : Nat} {drain : Drain E} {job : Job E}
      {ticket : Option TicketId}
      (at_panic : s.frames c = .draining drain (.panicked job ticket)) :
      Step machine s ⟨c, .advances⟩
        ((s.resolve job ticket false).put c
          (.draining drain (.reading (.ownStep job ticket))))
  | guardReads {c : Nat} {drain : Drain E} {cause : Cause E}
      (at_guard : s.frames c = .draining drain (.reading cause))
      (unlocked : s.held = false) :
      Step machine s ⟨c, .advances⟩
        (s.put c
          (.draining drain (.handing cause (machine.isTerminated s.machine))))
  | guardHands {c : Nat} {drain : Drain E} {cause : Cause E}
      {terminated : Bool} {queue : FifoQueue E N}
      {stranded : List (Job E × TicketId)} {room : List WaiterId}
      (at_guard : s.frames c = .draining drain (.handing cause terminated))
      (locked : s.queue.unwind terminated = (queue, stranded, room)) :
      Step machine s ⟨c, .advances⟩
        ((({ s with queue := queue } : State M E N).take
            (stranded.map Prod.fst)).put c
          (.draining drain (.stranding
            { cause
              terminated := queue.terminated
              behind := s.queue.entries
              registered :=
                room.map fun waiter => (waiter, (s.waiters waiter).polls) }
            stranded room)))
  | strand {c : Nat} {drain : Drain E} {handover : Handover E} {job : Job E}
      {ticket : TicketId} {stranded : List (Job E × TicketId)}
      {room : List WaiterId}
      (at_strand : s.frames c = .draining drain
        (.stranding handover ((job, ticket) :: stranded) room)) :
      Step machine s ⟨c, .advances⟩
        ((s.resolve job (some ticket) false).put c
          (.draining drain (.stranding handover stranded room)))
  | stranded {c : Nat} {drain : Drain E} {handover : Handover E}
      {room : List WaiterId}
      (at_strand : s.frames c =
        .draining drain (.stranding handover [] room)) :
      Step machine s ⟨c, .advances⟩
        (s.put c (.draining drain (.rousing handover room)))
  | rouse {c : Nat} {drain : Drain E} {handover : Handover E}
      {waiter : WaiterId} {room : List WaiterId}
      (at_rouse : s.frames c =
        .draining drain (.rousing handover (waiter :: room))) :
      Step machine s ⟨c, .advances⟩
        ((s.wake waiter).put c (.draining drain (.rousing handover room)))
  -- A guard that acted on a drain that was returning lets it return.
  | rousedReturning {c : Nat} {drain : Drain E} {handover : Handover E}
      (at_rouse : s.frames c = .draining drain (.rousing handover []))
      (returning : handover.cause = .foreign true) :
      Step machine s ⟨c, .advances⟩
        (s.put c (.offered drain.caller drain.job drain.result))
  -- The panic leaves the call.
  | unwound {c : Nat} {drain : Drain E} {handover : Handover E}
      (at_rouse : s.frames c = .draining drain (.rousing handover []))
      (unwinding : handover.cause ≠ .foreign true)
      (new : ∀ completion waiter waker,
        drain.caller ≠ .poll completion waiter waker) :
      Step machine s ⟨c, .unwinds⟩ (s.put c .idle)
  -- A poll had put `Done(false)` in the completion it took apart.
  | unwoundPoll {c completion waiter : Nat} {waker : Waker} {drain : Drain E}
      {handover : Handover E}
      (at_rouse : s.frames c = .draining drain (.rousing handover []))
      (unwinding : handover.cause ≠ .foreign true)
      (polled : drain.caller = .poll completion waiter waker) :
      Step machine s ⟨c, .unwinds⟩
        ((s.hold completion (.done false)).put c .idle)
  | returnDone {c completion : Nat} {caller : Caller} {job : Job E}
      {accepted : Bool}
      (at_return : s.frames c = .offered caller job (.done accepted))
      (new : caller = .submit ∨ caller = .trySubmit)
      (free : s.completions completion = .free) :
      Step machine s ⟨c, .advances⟩
        ((s.hold completion (.done accepted)).put c .idle)
  | returnQueued {c completion ticket : Nat} {caller : Caller} {job : Job E}
      (at_return : s.frames c = .offered caller job (.queued ticket))
      (new : caller = .submit ∨ caller = .trySubmit)
      (free : s.completions completion = .free) :
      Step machine s ⟨c, .advances⟩
        ((s.hold completion (.queued ticket)).put c .idle)
  -- A full queue makes `submit` wait for room.
  | returnRoom {c completion : Nat} {job : Job E}
      (at_return : s.frames c = .offered .submit job .full)
      (free : s.completions completion = .free) :
      Step machine s ⟨c, .advances⟩
        (((({ s with nextWaiter := s.nextWaiter + 1 } : State M E N)).hold
          completion (.room job s.nextWaiter)).put c .idle)
  -- A full queue makes `try_submit` return `Err(QueueFull)`.
  | returnFull {c : Nat} {job : Job E}
      (at_return : s.frames c = .offered .trySubmit job .full) :
      Step machine s ⟨c, .advances⟩ (s.put c .idle)
  | polledRoom {c completion waiter : Nat} {waker : Waker} {job : Job E}
      (at_return : s.frames c =
        .offered (.poll completion waiter waker) job .full) :
      Step machine s ⟨c, .advances⟩
        ((s.hold completion (.room job waiter)).put c .idle)
  | polledDone {c completion waiter : Nat} {waker : Waker} {job : Job E}
      {accepted : Bool}
      (at_return : s.frames c =
        .offered (.poll completion waiter waker) job (.done accepted)) :
      Step machine s ⟨c, .advances⟩
        ((({ s with queue := s.queue.forget waiter } : State M E N).hold
          completion (.done accepted)).put c .idle)
  | polledQueued {c completion waiter ticket : Nat} {waker : Waker}
      {job : Job E}
      (at_return : s.frames c =
        .offered (.poll completion waiter waker) job (.queued ticket)) :
      Step machine s ⟨c, .advances⟩
        (({ s with queue := s.queue.forget waiter } : State M E N).put c
          (.polling completion ticket waker))
  | pollTicket {c completion ticket : Nat} {waker : Waker}
      (at_poll : s.frames c = .polling completion ticket waker) :
      Step machine s ⟨c, .advances⟩
        ((({ s with
            tickets := Function.update s.tickets ticket
              ((s.tickets ticket).poll waker).2 } : State M E N).hold
          completion (.queued ticket)).put c .idle)

/-- The run of a machine whose guards act only on the unwinding of their own
drain: `std::thread::panicking()` is true at a guard's drop exactly when that
drain's own step panicked. -/
def Disciplined (label : Label) : Prop := label.action ≠ .guardActs

/-- A run without a panicking step, and so without an acting guard. -/
def PanicFree (label : Label) : Prop :=
  label.action ≠ .guardActs ∧ label.action ≠ .panics

/-- Reachable from construction by steps whose labels satisfy a condition. -/
def Reachable {N : Nat} (machine : SyncMachineStep M E) (initial : M)
    (meets : Label → Prop) (s : State M E N) : Prop :=
  ∃ labels, Lib.TraceWhere (Step machine) (fun _ label => meets label)
    (State.cell machine initial) labels s

theorem Reachable.start {N : Nat} (machine : SyncMachineStep M E) (initial : M)
    (meets : Label → Prop) :
    Reachable machine initial meets (State.cell machine initial : State M E N) :=
  ⟨[], .nil⟩

theorem Reachable.step {N : Nat} {machine : SyncMachineStep M E} {initial : M}
    {meets : Label → Prop} {s t : State M E N} {label : Label}
    (reachable : Reachable machine initial meets s)
    (one : Step machine s label t) (met : meets label) :
    Reachable machine initial meets t := by
  obtain ⟨labels, run⟩ := reachable
  exact ⟨labels ++ [label], run.snoc ⟨one, met⟩⟩

/-- A run from a reachable state ends in a reachable one. -/
theorem Reachable.run {N : Nat} {machine : SyncMachineStep M E} {initial : M}
    {meets : Label → Prop} {s t : State M E N} {labels : List Label}
    (reachable : Reachable machine initial meets s)
    (rest : Lib.TraceWhere (Step machine) (fun _ label => meets label) s labels
      t) : Reachable machine initial meets t := by
  obtain ⟨before, run⟩ := reachable
  exact ⟨before ++ labels, run.append rest⟩

end SmlRs.Scheduler
