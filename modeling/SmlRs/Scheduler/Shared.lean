/-
Module: SmlRs.Scheduler.Shared
Purpose: The data a `FifoScheduler` machine shares between its callers, and
  each critical section of `src/scheduler.rs` as a function on that data.
Trusted boundary: none
Main exports: SyncMachineStep, FifoScheduler, FifoQueue, FifoQueue.offer,
  FifoQueue.drainNext, FifoQueue.unwind, FifoQueue.forget, Ticket, Waiter
-/
import SmlRs.Utility.EventQueue

namespace SmlRs.Scheduler

open Utility

/-- A generated machine core as a queued scheduler drives it. A step runs user
callbacks, so what it does is a relation: from a machine and an event it may
return with a new machine and its acceptance, or unwind and leave some machine
behind. -/
structure SyncMachineStep (M E : Type*) where
  isTerminated : M → Bool
  start : M → M × Bool
  returns : M → E → M → Bool → Prop
  panics : M → E → M → Prop

/-- `FifoScheduler<N>` with what `VALID_CAPACITY` asserts of its `usize`
parameter. -/
structure FifoScheduler where
  N : Nat
  one_lt : 1 < N
  power_of_two : ∃ exponent, N = 2 ^ exponent
  fits : N ≤ usizeMax

/-- Identity of a task waker; `will_wake` compares identities. -/
abbrev Waker := Nat

/-- Identity of an `Arc<Ticket>`. -/
abbrev TicketId := Nat

/-- Identity of an `Arc<Waiter>`. -/
abbrev WaiterId := Nat

/-- A type-erased job: it steps the machine with `event`. The serial number
tells the submissions of equal events apart; no code reads it. -/
structure Job (E : Type*) where
  event : E
  serial : Nat
deriving DecidableEq, Repr

/-- `TicketState`, the result slot of one queued event. -/
structure Ticket where
  accepted : Option Bool := none
  waker : Option Waker := none
deriving DecidableEq, Repr

namespace Ticket

/-- Stores the result and takes the waker to wake. -/
def resolve (_ticket : Ticket) (accepted : Bool) : Ticket :=
  { accepted := some accepted
    waker := none }

/-- `Poll::Ready` with the result, or `none` after storing the waker. -/
def poll (ticket : Ticket) (waker : Waker) : Option Bool × Ticket :=
  match ticket.accepted with
  | some accepted => (some accepted, ticket)
  | none => (none, { ticket with waker := some waker })

@[simp] theorem resolve_accepted (ticket : Ticket) (accepted : Bool) :
    (ticket.resolve accepted).accepted = some accepted := rfl

@[simp] theorem poll_accepted (ticket : Ticket) (waker : Waker) :
    (ticket.poll waker).2.accepted = ticket.accepted := by
  unfold poll
  split <;> simp [*]

end Ticket

/-- A completion waiting for room, holding the waker of its latest poll.
`polls` counts the polls of the completion and `woken` is the number of the
latest poll whose waker has been woken; no code reads the two counters. -/
structure Waiter where
  waker : Option Waker := none
  polls : Nat := 0
  woken : Nat := 0
deriving DecidableEq, Repr

namespace Waiter

def update (waiter : Waiter) (waker : Waker) : Waiter :=
  { waiter with
    waker :=
      if waiter.waker = some waker then waiter.waker else some waker
    polls := waiter.polls + 1 }

/-- Takes the waker and wakes it. -/
def wake (waiter : Waiter) : Waiter :=
  { waiter with
    waker := none
    woken := if waiter.waker.isSome then waiter.polls else waiter.woken }

@[simp] theorem update_polls (waiter : Waiter) (waker : Waker) :
    (waiter.update waker).polls = waiter.polls + 1 := rfl

@[simp] theorem update_woken (waiter : Waiter) (waker : Waker) :
    (waiter.update waker).woken = waiter.woken := rfl

theorem update_waker (waiter : Waiter) (waker : Waker) :
    (waiter.update waker).waker = some waker := by
  simp only [update]
  split <;> simp [*]

@[simp] theorem wake_polls (waiter : Waiter) : waiter.wake.polls = waiter.polls :=
  rfl

@[simp] theorem wake_waker (waiter : Waiter) : waiter.wake.waker = none := rfl

end Waiter

/-- `FifoQueue<M, N>`: what the queue lock protects. -/
structure FifoQueue (E : Type*) (N : Nat) where
  events : EventQueue (Job E × TicketId) N
  draining : Bool
  terminated : Bool
  room : List WaiterId

/-- The branch `offer` leaves its critical section by. The two branches in
which `defer` fails are kept apart from the ones the source expects. -/
inductive OfferOutcome (E : Type*) where
  | terminated
  | full
  | queued
  | deferFailed
  | drainOlder (older : Job E) (olderTicket : TicketId)
  | drainOlderDeferFailed (older : Job E) (olderTicket : TicketId)
  | drainOwn
deriving DecidableEq, Repr

namespace FifoQueue

variable {E : Type*} {N : Nat}

/-- Registers a waiter at most once. -/
def register (queue : FifoQueue E N) : Option WaiterId → FifoQueue E N
  | some waiter =>
      if waiter ∈ queue.room then queue
      else { queue with room := queue.room ++ [waiter] }
  | none => queue

/-- The critical section of `FifoCell::offer`: `ticket` is the ticket it
creates when it queues the event. -/
def offer (queue : FifoQueue E N) (job : Job E) (ticket : TicketId)
    (waiter : Option WaiterId) : FifoQueue E N × OfferOutcome E :=
  if queue.terminated then
    (queue, .terminated)
  else if queue.draining then
    if queue.events.len = N then
      (queue.register waiter, .full)
    else
      match queue.events.defer (job, ticket) with
      | none => (queue, .deferFailed)
      | some events => ({ queue with events := events }, .queued)
  else
    match queue.events.pop with
    | some ((older, olderTicket), popped) =>
        -- A drainer unwound and left events queued: they are older, so this
        -- one queues behind them in the slot the pop freed.
        match popped.defer (job, ticket) with
        | none =>
            ({ queue with draining := true, events := popped },
              .drainOlderDeferFailed older olderTicket)
        | some events =>
            ({ queue with draining := true, events := events },
              .drainOlder older olderTicket)
    | none => ({ queue with draining := true }, .drainOwn)

/-- The critical section of one iteration of the `drain` loop: the next job
and the waiters to wake. -/
def drainNext (queue : FifoQueue E N) (terminated : Bool) :
    FifoQueue E N × Option (Job E × TicketId) × List WaiterId :=
  match queue.events.pop with
  | some (next, events) =>
      ({ queue with events := events, terminated := terminated, room := [] },
        some next, queue.room)
  | none =>
      ({ queue with terminated := terminated, draining := false, room := [] },
        none, queue.room)

/-- The critical section of `Unwinding::drop`: the stranded jobs with their
tickets and the waiters to wake. -/
def unwind (queue : FifoQueue E N) (terminated : Bool) :
    FifoQueue E N × List (Job E × TicketId) × List WaiterId :=
  let closed := queue.terminated || terminated
  let (stranded, events) :=
    if closed then queue.events.popAll else ([], queue.events)
  ({ events := events, draining := false, terminated := closed, room := [] },
    stranded, queue.room)

/-- Withdraws a waiting completion's registration. -/
def forget (queue : FifoQueue E N) (waiter : WaiterId) : FifoQueue E N :=
  { queue with room := queue.room.filter (· ≠ waiter) }

/-- The queued jobs with their tickets, next one first. -/
def entries (queue : FifoQueue E N) : List (Job E × TicketId) :=
  queue.events.toList

/-- The ring is a well-formed window. -/
def Wf (queue : FifoQueue E N) : Prop :=
  queue.events.Represents queue.entries

theorem Wf.of_represents {queue : FifoQueue E N}
    {entries : List (Job E × TicketId)}
    (represents : queue.events.Represents entries) :
    queue.Wf ∧ queue.entries = entries := by
  have same : queue.entries = entries := represents.toList_eq
  exact ⟨by rw [Wf, same]; exact represents, same⟩

theorem Wf.represents {queue : FifoQueue E N}
    {entries : List (Job E × TicketId)} (wf : queue.Wf)
    (same : queue.entries = entries) : queue.events.Represents entries :=
  same ▸ wf

theorem Wf.length_le {queue : FifoQueue E N} (wf : queue.Wf) :
    queue.entries.length ≤ N :=
  wf.bounded

@[simp] theorem register_events (queue : FifoQueue E N)
    (waiter : Option WaiterId) :
    (queue.register waiter).events = queue.events := by
  unfold register
  split
  · split <;> rfl
  · rfl

@[simp] theorem register_draining (queue : FifoQueue E N)
    (waiter : Option WaiterId) :
    (queue.register waiter).draining = queue.draining := by
  unfold register
  split
  · split <;> rfl
  · rfl

@[simp] theorem register_terminated (queue : FifoQueue E N)
    (waiter : Option WaiterId) :
    (queue.register waiter).terminated = queue.terminated := by
  unfold register
  split
  · split <;> rfl
  · rfl

@[simp] theorem register_entries (queue : FifoQueue E N)
    (waiter : Option WaiterId) :
    (queue.register waiter).entries = queue.entries := by
  simp [entries]

/-- What each branch of `offer` finds under the lock and leaves behind. The
two branches of a failing `defer` are absent: the capacity was checked, or a
slot was freed, under the same lock. -/
inductive OfferSpec (queue : FifoQueue E N) (job : Job E) (ticket : TicketId)
    (waiter : Option WaiterId) : FifoQueue E N → OfferOutcome E → Prop where
  | terminated (closed : queue.terminated = true) :
      OfferSpec queue job ticket waiter queue .terminated
  | full {after : FifoQueue E N} (opened : queue.terminated = false)
      (busy : queue.draining = true) (atCapacity : queue.entries.length = N)
      (registered : after = queue.register waiter) :
      OfferSpec queue job ticket waiter after .full
  | queued {after : FifoQueue E N} (opened : queue.terminated = false)
      (busy : queue.draining = true) (wf : after.Wf)
      (entries : after.entries = queue.entries ++ [(job, ticket)])
      (draining : after.draining = true) (terminated : after.terminated = false)
      (room : after.room = queue.room) :
      OfferSpec queue job ticket waiter after .queued
  | drainOlder {after : FifoQueue E N} {older : Job E} {olderTicket : TicketId}
      {rest : List (Job E × TicketId)} (opened : queue.terminated = false)
      (free : queue.draining = false)
      (front : queue.entries = (older, olderTicket) :: rest) (wf : after.Wf)
      (entries : after.entries = rest ++ [(job, ticket)])
      (draining : after.draining = true) (terminated : after.terminated = false)
      (room : after.room = queue.room) :
      OfferSpec queue job ticket waiter after (.drainOlder older olderTicket)
  | drainOwn (opened : queue.terminated = false)
      (free : queue.draining = false) (empty : queue.entries = []) :
      OfferSpec queue job ticket waiter { queue with draining := true }
        .drainOwn

theorem offer_spec (fits : N ≤ usizeMax) {queue : FifoQueue E N}
    (wf : queue.Wf) (job : Job E) (ticket : TicketId)
    (waiter : Option WaiterId) :
    OfferSpec queue job ticket waiter (queue.offer job ticket waiter).1
      (queue.offer job ticket waiter).2 := by
  unfold offer
  by_cases closed : queue.terminated = true
  · simp only [closed, if_true]
    exact .terminated closed
  have opened : queue.terminated = false := by simpa using closed
  rw [if_neg closed]
  by_cases busy : queue.draining = true
  · rw [if_pos busy]
    have deferred := EventQueue.defer_represents fits wf (job, ticket)
    by_cases full : queue.entries.length = N
    · rw [if_pos (by rw [wf.len, full])]
      exact .full opened busy full rfl
    · rw [if_neg full] at deferred
      obtain ⟨events, computed, represents⟩ := deferred
      rw [if_neg (by rw [wf.len]; exact full), computed]
      obtain ⟨afterWf, entries⟩ :=
        @Wf.of_represents E N { queue with events := events } _ represents
      exact .queued opened busy afterWf entries busy opened rfl
  · have free : queue.draining = false := by simpa using busy
    rw [if_neg busy]
    cases front : queue.entries with
    | nil =>
        rw [EventQueue.pop_empty (wf.represents front)]
        exact .drainOwn opened free front
    | cons entry rest =>
        obtain ⟨events, computed, represents⟩ :=
          EventQueue.pop_represents fits (wf.represents front)
        have bounded := wf.length_le
        rw [front, List.length_cons] at bounded
        have deferred :=
          EventQueue.defer_represents fits represents (job, ticket)
        rw [if_neg (by omega)] at deferred
        obtain ⟨after, computedAfter, afterRepresents⟩ := deferred
        simp only [computed, computedAfter]
        obtain ⟨afterWf, entries⟩ := @Wf.of_represents E N
          { queue with draining := true, events := after } _ afterRepresents
        exact .drainOlder opened free front afterWf entries rfl opened rfl

/-- What one iteration of the drain loop finds and leaves behind. -/
inductive DrainNextSpec (queue : FifoQueue E N) (terminated : Bool) :
    FifoQueue E N → Option (Job E × TicketId) → List WaiterId → Prop where
  | next {after : FifoQueue E N} {entry : Job E × TicketId}
      (front : queue.entries = entry :: after.entries) (wf : after.Wf)
      (draining : after.draining = queue.draining)
      (closed : after.terminated = terminated) (room : after.room = []) :
      DrainNextSpec queue terminated after (some entry) queue.room
  | done {after : FifoQueue E N} (empty : queue.entries = [])
      (wf : after.Wf) (entries : after.entries = [])
      (draining : after.draining = false)
      (closed : after.terminated = terminated) (room : after.room = []) :
      DrainNextSpec queue terminated after none queue.room

theorem drainNext_spec (fits : N ≤ usizeMax) {queue : FifoQueue E N}
    (wf : queue.Wf) (terminated : Bool) :
    DrainNextSpec queue terminated (queue.drainNext terminated).1
      (queue.drainNext terminated).2.1 (queue.drainNext terminated).2.2 := by
  unfold drainNext
  cases front : queue.entries with
  | nil =>
      rw [EventQueue.pop_empty (wf.represents front)]
      exact .done front wf front rfl rfl rfl
  | cons entry rest =>
      obtain ⟨events, computed, represents⟩ :=
        EventQueue.pop_represents fits (wf.represents front)
      simp only [computed]
      obtain ⟨afterWf, entries⟩ := @Wf.of_represents E N
        { queue with events := events, terminated := terminated, room := [] }
        _ represents
      exact .next (by rw [front, entries]) afterWf rfl rfl rfl

/-- What the unwinding guard leaves behind: a free queue that keeps its events
unless the machine is closed, in which case all of them are stranded. -/
structure UnwindSpec (queue : FifoQueue E N) (terminated : Bool)
    (after : FifoQueue E N) (stranded : List (Job E × TicketId)) : Prop where
  wf : after.Wf
  entries : stranded ++ after.entries = queue.entries
  stranded_nil : (queue.terminated || terminated) = false → stranded = []
  entries_nil : (queue.terminated || terminated) = true → after.entries = []
  draining : after.draining = false
  terminated : after.terminated = (queue.terminated || terminated)
  room : after.room = []

theorem unwind_spec (fits : N ≤ usizeMax) {queue : FifoQueue E N}
    (wf : queue.Wf) (terminated : Bool) :
    UnwindSpec queue terminated (queue.unwind terminated).1
      (queue.unwind terminated).2.1 := by
  cases closed : (queue.terminated || terminated) with
  | false =>
      have computed : queue.unwind terminated =
          ({ queue with draining := false, terminated := false, room := [] },
            [], queue.room) := by
        simp [unwind, closed]
      rw [computed]
      exact
        { wf := wf
          entries := rfl
          stranded_nil := fun _ => rfl
          entries_nil := fun contrary => by rw [closed] at contrary; cases contrary
          draining := rfl
          terminated := closed.symm
          room := rfl }
  | true =>
      have computed : queue.unwind terminated =
          ({ events := queue.events.popAll.2, draining := false,
             terminated := true, room := [] },
            queue.events.popAll.1, queue.room) := by
        simp [unwind, closed]
      obtain ⟨items, represents⟩ := EventQueue.popAll_represents fits wf
      obtain ⟨afterWf, entries⟩ := @Wf.of_represents E N
        { events := queue.events.popAll.2, draining := false,
          terminated := true, room := [] } _ represents
      rw [computed]
      exact
        { wf := afterWf
          entries := by rw [entries, items, List.append_nil]
          stranded_nil := fun contrary => by rw [closed] at contrary; cases contrary
          entries_nil := fun _ => entries
          draining := rfl
          terminated := closed.symm
          room := rfl }

@[simp] theorem unwind_room (queue : FifoQueue E N) (terminated : Bool) :
    (queue.unwind terminated).2.2 = queue.room := rfl

end FifoQueue

end SmlRs.Scheduler
