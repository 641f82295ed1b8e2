/-
Module: SmlRs.Scheduler.Dropping
Purpose: Dropping the completion of a determined submission changes nothing for
  anybody else: the runs with and without the completion simulate each other.
Trusted boundary: none
Main exports: State.dropping, State.Settled, Step.dropping, Step.of_dropping,
  Trace.dropping, Trace.of_dropping
-/
import SmlRs.Scheduler.Submissions

namespace SmlRs.Scheduler

open Lib

variable {M E : Type*} {N : Nat} {machine : SyncMachineStep M E}

namespace State

/-- The state in which a completion is dropped and the tickets hold other
wakers. -/
def dropping (s : State M E N) (completion : Nat)
    (wakers : TicketId → Option Waker) : State M E N :=
  { s with
    completions := Function.update s.completions completion .dropped
    tickets := fun ticket =>
      { s.tickets ticket with waker := wakers ticket } }

/-- The completion's event is queued or its result is known, or the completion
is dropped. -/
def Settled (s : State M E N) (completion : Nat) : Prop :=
  (∃ ticket, s.completions completion = .held (.queued ticket)) ∨
    (∃ accepted, s.completions completion = .held (.done accepted)) ∨
    s.completions completion = .dropped

variable {s t : State M E N} {completion other : Nat}

theorem Settled.not_borrowed (settled : s.Settled completion) :
    s.completions completion ≠ .borrowed := by
  rcases settled with ⟨_, at_completion⟩ | ⟨_, at_completion⟩ | at_completion <;>
    simp [at_completion]

theorem Settled.not_free (settled : s.Settled completion) :
    s.completions completion ≠ .free := by
  rcases settled with ⟨_, at_completion⟩ | ⟨_, at_completion⟩ | at_completion <;>
    simp [at_completion]

theorem Settled.not_room (settled : s.Settled completion) {job : Job E}
    {waiter : WaiterId} :
    s.completions completion ≠ .held (.room job waiter) := by
  rcases settled with ⟨_, at_completion⟩ | ⟨_, at_completion⟩ | at_completion <;>
    simp [at_completion]

theorem Settled.of_eq (settled : s.Settled completion)
    (same : t.completions completion = s.completions completion) :
    t.Settled completion := by
  simpa only [Settled, same] using settled

theorem dropping_put (s : State M E N) (completion : Nat)
    (wakers : TicketId → Option Waker) (c : Nat) (frame : Frame E) :
    (s.put c frame).dropping completion wakers =
      (s.dropping completion wakers).put c frame := rfl

/-- Resolving a ticket takes its waker. -/
theorem dropping_resolve (s : State M E N) (completion : Nat)
    (wakers : TicketId → Option Waker) (job : Job E)
    (ticket : Option TicketId) (accepted : Bool) :
    ∃ after, (s.resolve job ticket accepted).dropping completion after =
      (s.dropping completion wakers).resolve job ticket accepted := by
  cases ticket with
  | none => exact ⟨wakers, rfl⟩
  | some ticket =>
      refine ⟨Function.update wakers ticket none, ?_⟩
      simp only [dropping, resolve, mk.injEq, true_and, and_true]
      funext one
      by_cases same : one = ticket
      · subst same
        simp [Ticket.resolve]
      · simp [same]

/-- Polling a ticket sets at most its waker. -/
theorem dropping_pollTicket (s : State M E N) (completion : Nat)
    (wakers : TicketId → Option Waker) (ticket : TicketId) (waker : Waker) :
    ∃ after,
      ({ s with
          tickets := Function.update s.tickets ticket
            ((s.tickets ticket).poll waker).2 } : State M E N).dropping
          completion after =
        { s.dropping completion wakers with
          tickets :=
            Function.update (s.dropping completion wakers).tickets ticket
              (((s.dropping completion wakers).tickets ticket).poll
                waker).2 } := by
  refine ⟨Function.update wakers ticket
    (((s.dropping completion wakers).tickets ticket).poll waker).2.waker, ?_⟩
  simp only [dropping, mk.injEq, true_and, and_true]
  funext one
  by_cases same : one = ticket
  · subst same
    cases resolved : (s.tickets one).accepted <;>
      simp [Ticket.poll, resolved]
  · simp [same]

/-- A poll of the dropped completion's ticket leaves no trace. -/
theorem dropping_pollTicket_self (s : State M E N) (completion : Nat)
    (wakers : TicketId → Option Waker) (ticket : TicketId) (waker : Waker) :
    ({ s with
        tickets := Function.update s.tickets ticket
          ((s.tickets ticket).poll waker).2 } : State M E N).dropping
        completion wakers =
      s.dropping completion wakers := by
  simp only [dropping, mk.injEq, true_and, and_true]
  funext one
  by_cases same : one = ticket
  · subst same
    simp
  · simp [same]

theorem dropping_hold (s : State M E N) (wakers : TicketId → Option Waker)
    (apart : other ≠ completion) (wait : FifoWait E) :
    (s.hold other wait).dropping completion wakers =
      (s.dropping completion wakers).hold other wait := by
  simp only [dropping, hold, mk.injEq, true_and, and_true]
  exact Function.update_comm apart _ _ _

theorem dropping_afterOffer (s : State M E N) (completion : Nat)
    (wakers : TicketId → Option Waker) (c : Nat) (caller : Caller)
    (job : Job E) (outcome : OfferOutcome E) :
    ∃ after, (s.afterOffer c caller job outcome).dropping completion after =
      (s.dropping completion wakers).afterOffer c caller job outcome := by
  cases outcome with
  | drainOlderDeferFailed older olderTicket =>
      obtain ⟨after, same⟩ := (s.issue job).dropping_resolve completion wakers
        job (some s.nextTicket) false
      exact ⟨after, congrArg (fun u : State M E N =>
        (u.take [older]).put c (.draining
          { caller, job, own := some s.nextTicket, accepted := none }
          (.running older (some olderTicket) false))) same⟩
  | _ => exact ⟨wakers, rfl⟩

theorem dropping_completions_of_ne (s : State M E N)
    (wakers : TicketId → Option Waker) (apart : other ≠ completion) :
    (s.dropping completion wakers).completions other = s.completions other :=
  Function.update_of_ne apart _ _

end State

/-- A step of anybody is the same step when a settled completion is dropped. -/
theorem Step.dropping {label : Label} {s t : State M E N} {completion : Nat}
    (step : Step machine s label t) (lent : s.Lent)
    (settled : s.Settled completion)
    (wakers : TicketId → Option Waker)
    (not_polls : label.action ≠ .polls completion)
    (not_drops : label.action ≠ .drops completion) :
    (∃ after, Step machine (s.dropping completion wakers) label
      (t.dropping completion after)) ∧
      t.completions completion = s.completions completion := by
  cases step with
  | submit event here => exact ⟨⟨wakers, .submit event here⟩, rfl⟩
  | trySubmit event here => exact ⟨⟨wakers, .trySubmit event here⟩, rfl⟩
  | @pollRoom c other waiter job waker here held =>
      have apart : other ≠ completion := fun same => not_polls (same ▸ rfl)
      refine ⟨⟨wakers, ?_⟩, Function.update_of_ne apart.symm _ _⟩
      have poll := @Step.pollRoom M E N machine (s.dropping completion wakers)
        c other waiter job waker here
        ((s.dropping_completions_of_ne wakers apart).trans held)
      convert poll using 1
      simp only [State.dropping, State.put, State.mk.injEq, true_and, and_true]
      exact Function.update_comm apart _ _ _
  | @pollQueued c other ticket waker here held =>
      have apart : other ≠ completion := fun same => not_polls (same ▸ rfl)
      obtain ⟨after, same⟩ :=
        s.dropping_pollTicket completion wakers ticket waker
      refine ⟨⟨after, ?_⟩, rfl⟩
      rw [same]
      exact .pollQueued waker here
        ((s.dropping_completions_of_ne wakers apart).trans held)
  | @pollDone c other accepted here held =>
      have apart : other ≠ completion := fun same => not_polls (same ▸ rfl)
      exact ⟨⟨wakers, .pollDone here
        ((s.dropping_completions_of_ne wakers apart).trans held)⟩, rfl⟩
  | @dropRoom c other waiter job here held =>
      have apart : other ≠ completion := fun same => not_drops (same ▸ rfl)
      refine ⟨⟨wakers, ?_⟩, Function.update_of_ne apart.symm _ _⟩
      have drop := @Step.dropRoom M E N machine (s.dropping completion wakers)
        c other waiter job here
        ((s.dropping_completions_of_ne wakers apart).trans held)
      convert drop using 1
      simp only [State.dropping, State.mk.injEq, true_and, and_true]
      exact Function.update_comm apart _ _ _
  | @dropQueued c other ticket here held =>
      have apart : other ≠ completion := fun same => not_drops (same ▸ rfl)
      refine ⟨⟨wakers, ?_⟩, Function.update_of_ne apart.symm _ _⟩
      have drop := @Step.dropQueued M E N machine
        (s.dropping completion wakers) c other ticket here
        ((s.dropping_completions_of_ne wakers apart).trans held)
      convert drop using 1
      simp only [State.dropping, State.mk.injEq, true_and, and_true]
      exact Function.update_comm apart _ _ _
  | @dropDone c other accepted here held =>
      have apart : other ≠ completion := fun same => not_drops (same ▸ rfl)
      refine ⟨⟨wakers, ?_⟩, Function.update_of_ne apart.symm _ _⟩
      have drop := @Step.dropDone M E N machine (s.dropping completion wakers)
        c other accepted here
        ((s.dropping_completions_of_ne wakers apart).trans held)
      convert drop using 1
      simp only [State.dropping, State.mk.injEq, true_and, and_true]
      exact Function.update_comm apart _ _ _
  | @offer c caller job queue outcome here locked =>
      obtain ⟨after, same⟩ := ({ s with queue := queue } :
        State M E N).dropping_afterOffer completion wakers c caller job outcome
      refine ⟨⟨after, ?_⟩, by cases outcome <;> rfl⟩
      rw [same]
      exact .offer here locked
  | @loop c drain terminated queue next room here locked =>
      refine ⟨⟨wakers, ?_⟩, by cases next <;> rfl⟩
      have loop := @Step.loop M E N machine (s.dropping completion wakers) c
        drain terminated queue next room here locked
      cases next <;> exact loop
  | @resolve c drain job ticket accepted terminated here =>
      obtain ⟨after, same⟩ :=
        s.dropping_resolve completion wakers job ticket accepted
      refine ⟨⟨after, ?_⟩, rfl⟩
      rw [State.dropping_put, same]
      exact .resolve here
  | @pendingDrop c drain job ticket here =>
      obtain ⟨after, same⟩ :=
        s.dropping_resolve completion wakers job ticket false
      refine ⟨⟨after, ?_⟩, rfl⟩
      rw [State.dropping_put, same]
      exact .pendingDrop here
  | @strand c drain handover job ticket stranded room here =>
      obtain ⟨after, same⟩ :=
        s.dropping_resolve completion wakers job (some ticket) false
      refine ⟨⟨after, ?_⟩, rfl⟩
      rw [State.dropping_put, same]
      exact .strand here
  | skip here => exact ⟨⟨wakers, .skip here⟩, rfl⟩
  | beginStep here unlocked => exact ⟨⟨wakers, .beginStep here unlocked⟩, rfl⟩
  | stepReturns here returns => exact ⟨⟨wakers, .stepReturns here returns⟩, rfl⟩
  | stepPanics here panics => exact ⟨⟨wakers, .stepPanics here panics⟩, rfl⟩
  | wakeNext here => exact ⟨⟨wakers, .wakeNext here⟩, rfl⟩
  | runNext here => exact ⟨⟨wakers, .runNext here⟩, rfl⟩
  | wakeLast here => exact ⟨⟨wakers, .wakeLast here⟩, rfl⟩
  | finish here => exact ⟨⟨wakers, .finish here⟩, rfl⟩
  | guardReturns here => exact ⟨⟨wakers, .guardReturns here⟩, rfl⟩
  | guardActs here => exact ⟨⟨wakers, .guardActs here⟩, rfl⟩
  | wakerPanics here => exact ⟨⟨wakers, .wakerPanics here⟩, rfl⟩
  | lastWakerPanics here => exact ⟨⟨wakers, .lastWakerPanics here⟩, rfl⟩
  | guardReads here unlocked => exact ⟨⟨wakers, .guardReads here unlocked⟩, rfl⟩
  | guardHands here locked => exact ⟨⟨wakers, .guardHands here locked⟩, rfl⟩
  | stranded here => exact ⟨⟨wakers, .stranded here⟩, rfl⟩
  | rouse here => exact ⟨⟨wakers, .rouse here⟩, rfl⟩
  | rousedReturning here returning => exact ⟨⟨wakers, .rousedReturning here returning⟩, rfl⟩
  | returnFull here => exact ⟨⟨wakers, .returnFull here⟩, rfl⟩
  | unwound here unwinding new =>
      exact ⟨⟨wakers, .unwound here unwinding new⟩, rfl⟩
  | @returnDone c other caller job accepted here new free =>
      have apart : other ≠ completion := fun same =>
        settled.not_free (same ▸ free)
      refine ⟨⟨wakers, ?_⟩, Function.update_of_ne apart.symm _ _⟩
      rw [State.dropping_put, State.dropping_hold _ _ apart]
      exact .returnDone here new
        ((s.dropping_completions_of_ne wakers apart).trans free)
  | @returnQueued c other ticket caller job here new free =>
      have apart : other ≠ completion := fun same =>
        settled.not_free (same ▸ free)
      refine ⟨⟨wakers, ?_⟩, Function.update_of_ne apart.symm _ _⟩
      rw [State.dropping_put, State.dropping_hold _ _ apart]
      exact .returnQueued here new
        ((s.dropping_completions_of_ne wakers apart).trans free)
  | @returnRoom c other job here free =>
      have apart : other ≠ completion := fun same =>
        settled.not_free (same ▸ free)
      refine ⟨⟨wakers, ?_⟩, Function.update_of_ne apart.symm _ _⟩
      rw [State.dropping_put, State.dropping_hold _ _ apart]
      exact .returnRoom here
        ((s.dropping_completions_of_ne wakers apart).trans free)
  | @unwoundPoll c other waiter waker drain handover here unwinding polled =>
      have apart : other ≠ completion := fun same =>
        settled.not_borrowed (same ▸ lent.borrowed (by
          rw [here]
          exact congrArg Caller.polls polled))
      refine ⟨⟨wakers, ?_⟩, Function.update_of_ne apart.symm _ _⟩
      rw [State.dropping_put, State.dropping_hold _ _ apart]
      exact .unwoundPoll here unwinding polled
  | @polledRoom c other waiter waker job here =>
      have apart : other ≠ completion := fun same =>
        settled.not_borrowed (same ▸ lent.borrowed (by rw [here]; rfl))
      refine ⟨⟨wakers, ?_⟩, Function.update_of_ne apart.symm _ _⟩
      rw [State.dropping_put, State.dropping_hold _ _ apart]
      exact .polledRoom here
  | @polledDone c other waiter waker job accepted here =>
      have apart : other ≠ completion := fun same =>
        settled.not_borrowed (same ▸ lent.borrowed (by rw [here]; rfl))
      refine ⟨⟨wakers, ?_⟩, Function.update_of_ne apart.symm _ _⟩
      rw [State.dropping_put, State.dropping_hold _ _ apart]
      exact .polledDone here
  | polledQueued here => exact ⟨⟨wakers, .polledQueued here⟩, rfl⟩
  | @pollTicket c other ticket waker here =>
      have apart : other ≠ completion := fun same =>
        settled.not_borrowed (same ▸ lent.borrowed (by rw [here]; rfl))
      obtain ⟨after, same⟩ :=
        s.dropping_pollTicket completion wakers ticket waker
      refine ⟨⟨after, ?_⟩, Function.update_of_ne apart.symm _ _⟩
      rw [State.dropping_put, State.dropping_hold _ _ apart, same]
      exact .pollTicket here

/-- A dropped completion is not polled or dropped, and every step without it is
a step with it. -/
theorem Step.of_dropping {label : Label} {s v : State M E N} {completion : Nat}
    {wakers : TicketId → Option Waker}
    (step : Step machine (s.dropping completion wakers) label v)
    (lent : s.Lent) (settled : s.Settled completion) :
    ∃ t, Step machine s label t ∧
      (∃ after, v = t.dropping completion after) ∧
      t.completions completion = s.completions completion := by
  -- What is not dropped is another completion, and the same in both states.
  have present : ∀ {other value},
      (s.dropping completion wakers).completions other = value →
        value ≠ .dropped →
          other ≠ completion ∧ s.completions other = value := by
    intro other value at_other alive
    by_cases same : other = completion
    · subst same
      exact absurd (at_other.symm.trans (Function.update_self _ _ _)) alive
    · exact ⟨same, (s.dropping_completions_of_ne wakers same).symm.trans at_other⟩
  cases step with
  | submit event here =>
      exact ⟨_, .submit event here, ⟨wakers, rfl⟩, rfl⟩
  | trySubmit event here =>
      exact ⟨_, .trySubmit event here, ⟨wakers, rfl⟩, rfl⟩
  | @pollRoom c other waiter job waker here held =>
      obtain ⟨apart, held⟩ := present held (by simp)
      refine ⟨_, .pollRoom waker here held, ⟨wakers, ?_⟩,
        Function.update_of_ne apart.symm _ _⟩
      simp only [State.dropping, State.put, State.mk.injEq, true_and, and_true]
      exact Function.update_comm apart.symm _ _ _
  | @pollQueued c other ticket waker here held =>
      obtain ⟨apart, held⟩ := present held (by simp)
      obtain ⟨after, same⟩ :=
        s.dropping_pollTicket completion wakers ticket waker
      exact ⟨_, .pollQueued waker here held, ⟨after, same.symm⟩, rfl⟩
  | @pollDone c other accepted here held =>
      obtain ⟨apart, held⟩ := present held (by simp)
      exact ⟨_, .pollDone here held, ⟨wakers, rfl⟩, rfl⟩
  | @dropRoom c other waiter job here held =>
      obtain ⟨apart, held⟩ := present held (by simp)
      refine ⟨_, .dropRoom here held, ⟨wakers, ?_⟩,
        Function.update_of_ne apart.symm _ _⟩
      simp only [State.dropping, State.mk.injEq, true_and, and_true]
      exact Function.update_comm apart.symm _ _ _
  | @dropQueued c other ticket here held =>
      obtain ⟨apart, held⟩ := present held (by simp)
      refine ⟨_, .dropQueued here held, ⟨wakers, ?_⟩,
        Function.update_of_ne apart.symm _ _⟩
      simp only [State.dropping, State.mk.injEq, true_and, and_true]
      exact Function.update_comm apart.symm _ _ _
  | @dropDone c other accepted here held =>
      obtain ⟨apart, held⟩ := present held (by simp)
      refine ⟨_, .dropDone here held, ⟨wakers, ?_⟩,
        Function.update_of_ne apart.symm _ _⟩
      simp only [State.dropping, State.mk.injEq, true_and, and_true]
      exact Function.update_comm apart.symm _ _ _
  | @offer c caller job queue outcome here locked =>
      obtain ⟨after, same⟩ := ({ s with queue := queue } :
        State M E N).dropping_afterOffer completion wakers c caller job outcome
      exact ⟨_, .offer here locked, ⟨after, same.symm⟩,
        by cases outcome <;> rfl⟩
  | @loop c drain terminated queue next room here locked =>
      exact ⟨_, .loop here locked, ⟨wakers, by cases next <;> rfl⟩,
        by cases next <;> rfl⟩
  | @resolve c drain job ticket accepted terminated here =>
      obtain ⟨after, same⟩ :=
        s.dropping_resolve completion wakers job ticket accepted
      refine ⟨_, .resolve here, ⟨after, ?_⟩, rfl⟩
      rw [State.dropping_put, same]
  | @pendingDrop c drain job ticket here =>
      obtain ⟨after, same⟩ :=
        s.dropping_resolve completion wakers job ticket false
      refine ⟨_, .pendingDrop here, ⟨after, ?_⟩, rfl⟩
      rw [State.dropping_put, same]
  | @strand c drain handover job ticket stranded room here =>
      obtain ⟨after, same⟩ :=
        s.dropping_resolve completion wakers job (some ticket) false
      refine ⟨_, .strand here, ⟨after, ?_⟩, rfl⟩
      rw [State.dropping_put, same]
  | skip here =>
      exact ⟨_, .skip here, ⟨wakers, rfl⟩, rfl⟩
  | beginStep here unlocked =>
      exact ⟨_, .beginStep here unlocked, ⟨wakers, rfl⟩, rfl⟩
  | stepReturns here returns =>
      exact ⟨_, .stepReturns here returns, ⟨wakers, rfl⟩, rfl⟩
  | stepPanics here panics =>
      exact ⟨_, .stepPanics here panics, ⟨wakers, rfl⟩, rfl⟩
  | wakeNext here =>
      exact ⟨_, .wakeNext here, ⟨wakers, rfl⟩, rfl⟩
  | runNext here =>
      exact ⟨_, .runNext here, ⟨wakers, rfl⟩, rfl⟩
  | wakeLast here =>
      exact ⟨_, .wakeLast here, ⟨wakers, rfl⟩, rfl⟩
  | finish here =>
      exact ⟨_, .finish here, ⟨wakers, rfl⟩, rfl⟩
  | guardReturns here =>
      exact ⟨_, .guardReturns here, ⟨wakers, rfl⟩, rfl⟩
  | guardActs here =>
      exact ⟨_, .guardActs here, ⟨wakers, rfl⟩, rfl⟩
  | wakerPanics here =>
      exact ⟨_, .wakerPanics here, ⟨wakers, rfl⟩, rfl⟩
  | lastWakerPanics here =>
      exact ⟨_, .lastWakerPanics here, ⟨wakers, rfl⟩, rfl⟩
  | guardReads here unlocked =>
      exact ⟨_, .guardReads here unlocked, ⟨wakers, rfl⟩, rfl⟩
  | guardHands here locked =>
      exact ⟨_, .guardHands here locked, ⟨wakers, rfl⟩, rfl⟩
  | stranded here =>
      exact ⟨_, .stranded here, ⟨wakers, rfl⟩, rfl⟩
  | rouse here =>
      exact ⟨_, .rouse here, ⟨wakers, rfl⟩, rfl⟩
  | rousedReturning here returning =>
      exact ⟨_, .rousedReturning here returning, ⟨wakers, rfl⟩, rfl⟩
  | returnFull here =>
      exact ⟨_, .returnFull here, ⟨wakers, rfl⟩, rfl⟩
  | polledQueued here =>
      exact ⟨_, .polledQueued here, ⟨wakers, rfl⟩, rfl⟩
  | unwound here unwinding new =>
      exact ⟨_, .unwound here unwinding new, ⟨wakers, rfl⟩, rfl⟩
  | @returnDone c other caller job accepted here new free =>
      obtain ⟨apart, free⟩ := present free (by simp)
      refine ⟨_, .returnDone here new free, ⟨wakers, ?_⟩,
        Function.update_of_ne apart.symm _ _⟩
      rw [State.dropping_put, State.dropping_hold _ _ apart]
  | @returnQueued c other ticket caller job here new free =>
      obtain ⟨apart, free⟩ := present free (by simp)
      refine ⟨_, .returnQueued here new free, ⟨wakers, ?_⟩,
        Function.update_of_ne apart.symm _ _⟩
      rw [State.dropping_put, State.dropping_hold _ _ apart]
  | @returnRoom c other job here free =>
      obtain ⟨apart, free⟩ := present free (by simp)
      refine ⟨_, .returnRoom here free, ⟨wakers, ?_⟩,
        Function.update_of_ne apart.symm _ _⟩
      rw [State.dropping_put, State.dropping_hold _ _ apart]
      rfl
  | @unwoundPoll c other waiter waker drain handover here unwinding polled =>
      have apart : other ≠ completion := fun same =>
        settled.not_borrowed (same ▸ lent.borrowed (c := c) (by
          rw [show s.frames c = _ from here]
          exact congrArg Caller.polls polled))
      refine ⟨_, .unwoundPoll here unwinding polled, ⟨wakers, ?_⟩,
        Function.update_of_ne apart.symm _ _⟩
      rw [State.dropping_put, State.dropping_hold _ _ apart]
  | @polledRoom c other waiter waker job here =>
      have apart : other ≠ completion := fun same =>
        settled.not_borrowed (same ▸ lent.borrowed (c := c)
          (by rw [show s.frames c = _ from here]; rfl))
      refine ⟨_, .polledRoom here, ⟨wakers, ?_⟩,
        Function.update_of_ne apart.symm _ _⟩
      rw [State.dropping_put, State.dropping_hold _ _ apart]
  | @polledDone c other waiter waker job accepted here =>
      have apart : other ≠ completion := fun same =>
        settled.not_borrowed (same ▸ lent.borrowed (c := c)
          (by rw [show s.frames c = _ from here]; rfl))
      refine ⟨_, .polledDone here, ⟨wakers, ?_⟩,
        Function.update_of_ne apart.symm _ _⟩
      rw [State.dropping_put, State.dropping_hold _ _ apart]
      rfl
  | @pollTicket c other ticket waker here =>
      have apart : other ≠ completion := fun same =>
        settled.not_borrowed (same ▸ lent.borrowed (c := c)
          (by rw [show s.frames c = _ from here]; rfl))
      obtain ⟨after, same⟩ :=
        s.dropping_pollTicket completion wakers ticket waker
      refine ⟨_, .pollTicket here, ⟨after, ?_⟩,
        Function.update_of_ne apart.symm _ _⟩
      rw [State.dropping_put, State.dropping_hold _ _ apart, same]

/-- A step that polls or drops the completion itself. -/
def Label.concerns (completion : Nat) (label : Label) : Bool :=
  label.action = .polls completion || label.action = .drops completion

/-- The steps of a settled completion's owner leave nothing to see. -/
theorem Step.dropping_own {label : Label} {s t : State M E N}
    {completion : Nat} (step : Step machine s label t)
    (settled : s.Settled completion) (wakers : TicketId → Option Waker)
    (own : label.concerns completion = true) :
    t.dropping completion wakers = s.dropping completion wakers ∧
      t.Settled completion := by
  simp only [Label.concerns, Bool.or_eq_true, decide_eq_true_eq] at own
  cases step <;> simp only [reduceCtorEq, Action.polls.injEq,
    Action.drops.injEq, false_or, or_false] at own
  case pollRoom held => exact absurd (own ▸ held) settled.not_room
  case dropRoom held => exact absurd (own ▸ held) settled.not_room
  case pollDone => exact ⟨rfl, settled⟩
  case pollQueued =>
      exact ⟨State.dropping_pollTicket_self _ _ _ _ _, settled.of_eq rfl⟩
  case dropQueued | dropDone =>
      subst own
      refine ⟨?_, .inr (.inr (Function.update_self _ _ _))⟩
      simp [State.dropping]

variable {meets : Label → Prop}

/-- Every run is a run without the completion, short of the steps of its owner.
-/
theorem dropping_run {labels : List Label} {s t : State M E N}
    {completion : Nat} (lent : s.Lent) (settled : s.Settled completion)
    (wakers : TicketId → Option Waker)
    (run : TraceWhere (Step machine) (fun _ label => meets label) s labels t) :
    ∃ after, TraceWhere (Step machine) (fun _ label => meets label)
      (s.dropping completion wakers)
      (labels.filter fun label => !label.concerns completion)
      (t.dropping completion after) := by
  suffices strong : (∃ after, TraceWhere (Step machine)
      (fun _ label => meets label) (s.dropping completion wakers)
      (labels.filter fun label => !label.concerns completion)
      (t.dropping completion after)) ∧ t.Lent ∧ t.Settled completion from
    strong.1
  induction run with
  | nil => exact ⟨⟨wakers, .nil⟩, lent, settled⟩
  | @snoc t u labels label run last inductionHypothesis =>
      obtain ⟨⟨between, prior⟩, lentT, settledT⟩ := inductionHypothesis
      obtain ⟨step, met⟩ := last
      rw [List.filter_append]
      cases own : label.concerns completion with
      | true =>
          obtain ⟨same, settledU⟩ := step.dropping_own settledT between own
          refine ⟨⟨between, ?_⟩, step.lent lentT, settledU⟩
          rw [same]
          simpa [own] using prior
      | false =>
          have apart := own
          simp only [Label.concerns, Bool.or_eq_false_iff,
            decide_eq_false_iff_not] at apart
          obtain ⟨⟨after, one⟩, same⟩ :=
            step.dropping lentT settledT between apart.1 apart.2
          refine ⟨⟨after, ?_⟩, step.lent lentT, settledT.of_eq same⟩
          have longer := Trace.snoc prior ⟨one, met⟩
          simpa [own] using longer

/-- Every run without the completion is a run with it. -/
theorem of_dropping_run {labels : List Label} {s v : State M E N}
    {completion : Nat} (lent : s.Lent) (settled : s.Settled completion)
    (wakers : TicketId → Option Waker)
    (run : TraceWhere (Step machine) (fun _ label => meets label)
      (s.dropping completion wakers) labels v) :
    ∃ t, TraceWhere (Step machine) (fun _ label => meets label) s labels t ∧
      ∃ after, v = t.dropping completion after := by
  suffices strong : ∃ t, TraceWhere (Step machine)
      (fun _ label => meets label) s labels t ∧
      (∃ after, v = t.dropping completion after) ∧ t.Lent ∧
      t.Settled completion by
    obtain ⟨t, whole, same, -⟩ := strong
    exact ⟨t, whole, same⟩
  induction run with
  | nil => exact ⟨s, .nil, ⟨wakers, rfl⟩, lent, settled⟩
  | snoc run last inductionHypothesis =>
      obtain ⟨t, prior, ⟨between, rfl⟩, lentT, settledT⟩ := inductionHypothesis
      obtain ⟨u, one, shape, same⟩ := last.1.of_dropping lentT settledT
      exact ⟨u, prior.snoc ⟨one, last.2⟩, shape, one.lent lentT,
        settledT.of_eq same⟩

end SmlRs.Scheduler
