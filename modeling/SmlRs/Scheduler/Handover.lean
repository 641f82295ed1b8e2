/-
Module: SmlRs.Scheduler.Handover
Purpose: What an unwinding guard still owes: the registered waiters it has to
  wake and the stranded tickets it has to resolve.
Trusted boundary: none
Main exports: Phase.HandoverOk, State.HandedOver, Step.handedOver
-/
import SmlRs.Scheduler.Tickets

namespace SmlRs.Scheduler

open Utility

variable {M E : Type*} {N : Nat} {machine : SyncMachineStep M E}

namespace Waiter

/-- A waiter without a waker has been woken since its latest poll. -/
structure Honest (waiter : Waiter) : Prop where
  woken : waiter.waker = none → waiter.woken = waiter.polls
  woken_le : waiter.woken ≤ waiter.polls

variable {waiter : Waiter}

/-- Waking a waiter pays all its polls. -/
theorem Honest.wake_woken (honest : waiter.Honest) :
    waiter.wake.woken = waiter.polls := by
  unfold Waiter.wake
  cases held : waiter.waker with
  | none => simpa using honest.woken held
  | some => rfl

theorem Honest.wake (honest : waiter.Honest) : waiter.wake.Honest where
  woken := fun _ => honest.wake_woken
  woken_le := Nat.le_of_eq honest.wake_woken

theorem Honest.update (honest : waiter.Honest) (waker : Waker) :
    (waiter.update waker).Honest where
  woken := by simp [Waiter.update_waker]
  woken_le := Nat.le_succ_of_le honest.woken_le

end Waiter

/-- The ticket of a step that panicked is resolved to `false`. -/
def Cause.Rejected (s : State M E N) : Cause E → Prop
  | .ownStep _ ticket => ∀ own, ticket = some own →
      (s.tickets own).accepted = some false
  | .foreign _ => True

/-- The waiters a guard found registered are still to be woken, or were woken
since their latest poll before. -/
def Handover.Wakes (s : State M E N) (handover : Handover E)
    (room : List WaiterId) : Prop :=
  ∀ entry ∈ handover.registered, entry.2 ≤ (s.waiters entry.1).polls ∧
    (entry.1 ∈ room ∨ entry.2 ≤ (s.waiters entry.1).woken)

/-- When the guard closed the line, the jobs it found queued are skipped, and
their tickets are still to be resolved, or resolved to `false`. -/
def Handover.Strands (machine : SyncMachineStep M E) (s : State M E N)
    (handover : Handover E) (stranded : List (Job E × TicketId)) : Prop :=
  handover.terminated = true → ∀ entry ∈ handover.behind,
    s.server.Skipped machine entry.1 ∧
      (entry ∈ stranded ∨ (s.tickets entry.2).accepted = some false)

/-- What a guard has done when it is in a phase. -/
def Phase.HandoverOk (machine : SyncMachineStep M E) (s : State M E N) :
    Phase E → Prop
  | .reading cause | .handing cause _ => cause.Rejected s
  | .stranding handover stranded room =>
      handover.cause.Rejected s ∧ handover.Wakes s room ∧
        handover.Strands machine s stranded
  | .rousing handover room =>
      handover.cause.Rejected s ∧ handover.Wakes s room ∧
        handover.Strands machine s []
  | .running .. | .stepping .. | .resolving .. | .looping _ | .waking ..
  | .finishing _ | .dropping | .panicked .. => True

/-- No wake-up is lost, and every guard does what it owes. -/
structure State.HandedOver (machine : SyncMachineStep M E)
    (s : State M E N) : Prop where
  honest : ∀ waiter, (s.waiters waiter).Honest
  phases : ∀ c drain phase, s.frames c = .draining drain phase →
    phase.HandoverOk machine s

/-- What no step takes back. -/
structure State.Before (machine : SyncMachineStep M E) (s t : State M E N) :
    Prop where
  polls : ∀ waiter, (s.waiters waiter).polls ≤ (t.waiters waiter).polls
  woken : ∀ waiter, (s.waiters waiter).woken ≤ (t.waiters waiter).woken
  accepted : ∀ ticket accepted, (s.tickets ticket).accepted = some accepted →
    (t.tickets ticket).accepted = some accepted
  skipped : ∀ job, s.server.Skipped machine job → t.server.Skipped machine job

variable {s t : State M E N}

theorem Cause.Rejected.later {cause : Cause E} (rejected : cause.Rejected s)
    (before : s.Before machine t) : cause.Rejected t := by
  cases cause with
  | ownStep job ticket =>
      exact fun own is_own => before.accepted own false (rejected own is_own)
  | foreign => trivial

theorem Handover.Wakes.later {handover : Handover E} {room : List WaiterId}
    (wakes : handover.Wakes s room) (before : s.Before machine t) :
    handover.Wakes t room := by
  intro entry member
  obtain ⟨polled, owed⟩ := wakes entry member
  exact ⟨Nat.le_trans polled (before.polls _),
    owed.imp_right fun woken =>
      Nat.le_trans woken (before.woken _)⟩

theorem Handover.Strands.later {handover : Handover E}
    {stranded : List (Job E × TicketId)}
    (strands : handover.Strands machine s stranded)
    (before : s.Before machine t) : handover.Strands machine t stranded := by
  intro closed entry member
  obtain ⟨skipped, owed⟩ := strands closed entry member
  exact ⟨before.skipped _ skipped,
    owed.imp_right fun resolved => before.accepted _ _ resolved⟩

theorem Phase.HandoverOk.later {phase : Phase E}
    (ok : phase.HandoverOk machine s) (before : s.Before machine t) :
    phase.HandoverOk machine t := by
  cases phase with
  | reading cause | handing cause => exact Cause.Rejected.later ok before
  | stranding | rousing =>
      exact ⟨ok.1.later before, ok.2.1.later before, ok.2.2.later before⟩
  | _ => trivial

/-- Waking the next waiter of a room list pays what was owed to it. -/
theorem Handover.Wakes.wake {handover : Handover E} {waiter : WaiterId}
    {room : List WaiterId} (wakes : handover.Wakes s (waiter :: room))
    (before : s.Before machine t)
    (woken : (t.waiters waiter).woken = (s.waiters waiter).polls) :
    handover.Wakes t room := by
  intro entry member
  obtain ⟨polled, owed⟩ := wakes entry member
  refine ⟨Nat.le_trans polled (before.polls _), ?_⟩
  rcases owed with listed | paid
  · rcases List.mem_cons.mp listed with here | later
    · right
      rw [here, woken, ← here]
      exact polled
    · exact .inl later
  · exact .inr (Nat.le_trans paid (before.woken _))

/-- What one step does to the waiters. -/
private theorem Step.waiters {label : Label} (step : Step machine s label t) :
    t.waiters = s.waiters ∨
      (∃ waiter, t.waiters =
        Function.update s.waiters waiter (s.waiters waiter).wake) ∨
      ∃ waiter waker, t.waiters =
        Function.update s.waiters waiter ((s.waiters waiter).update waker) := by
  cases step with
  | pollRoom waker => exact .inr (.inr ⟨_, waker, rfl⟩)
  | wakeNext | wakeLast | wakerPanics | lastWakerPanics | rouse =>
      exact .inr (.inl ⟨_, rfl⟩)
  | @offer _ _ _ _ outcome => cases outcome <;> exact .inl rfl
  | @loop _ _ _ _ next => cases next <;> exact .inl rfl
  | _ => exact .inl rfl

private theorem Step.woken {label : Label} (step : Step machine s label t)
    (handed : s.HandedOver machine) :
    (∀ waiter, (t.waiters waiter).Honest) ∧
      ∀ waiter, (s.waiters waiter).polls ≤ (t.waiters waiter).polls ∧
        (s.waiters waiter).woken ≤ (t.waiters waiter).woken := by
  suffices each : ∀ waiter, (t.waiters waiter).Honest ∧
      (s.waiters waiter).polls ≤ (t.waiters waiter).polls ∧
      (s.waiters waiter).woken ≤ (t.waiters waiter).woken from
    ⟨fun waiter => (each waiter).1, fun waiter => (each waiter).2⟩
  intro waiter
  have honest := handed.honest waiter
  rcases step.waiters with same | ⟨one, waked⟩ | ⟨one, waker, updated⟩
  · rw [same]
    exact ⟨honest, Nat.le_refl _, Nat.le_refl _⟩
  · rw [waked]
    by_cases same : waiter = one
    · subst same
      rw [Function.update_self, honest.wake_woken]
      exact ⟨honest.wake, Nat.le_refl _, honest.woken_le⟩
    · rw [Function.update_of_ne same]
      exact ⟨honest, Nat.le_refl _, Nat.le_refl _⟩
  · rw [updated]
    by_cases same : waiter = one
    · subst same
      rw [Function.update_self]
      exact ⟨honest.update waker, Nat.le_succ _, Nat.le_refl _⟩
    · rw [Function.update_of_ne same]
      exact ⟨honest, Nat.le_refl _, Nat.le_refl _⟩

/-- A result, a wake-up and a skipped job stay. -/
theorem Step.before {allowed : Allowed} {label : Label}
    (fits : N ≤ usizeMax) (step : Step machine s label t)
    (disciplined : Disciplined label) (ring : s.RingOk)
    (orderly : s.server.Orderly machine allowed)
    (ticketed : s.server.Ticketed) (handed : s.HandedOver machine) :
    s.Before machine t := by
  obtain ⟨-, one⟩ := step.refines fits ring
  obtain ⟨-, waiters⟩ := step.woken handed
  have after := one.ticketed disciplined ticketed
  refine ⟨fun waiter => (waiters waiter).1, fun waiter => (waiters waiter).2,
    fun ticket accepted resolved => ?_, fun job => one.skipped_stays orderly⟩
  obtain ⟨job, logged⟩ := (ticketed.log ticket accepted).mp resolved
  exact (after.log ticket accepted).mpr
    ⟨job, one.grows.resolutions.subset logged⟩

/-- The phases after one caller moved. -/
private theorem phases_of_put {c : Nat} {frame : Frame E}
    (handed : s.HandedOver machine) (before : s.Before machine t)
    (frames : t.frames = Function.update s.frames c frame)
    (here : ∀ drain phase, frame = .draining drain phase →
      phase.HandoverOk machine t) :
    ∀ d drain phase, t.frames d = .draining drain phase →
      phase.HandoverOk machine t := by
  intro d drain phase at_phase
  rw [frames] at at_phase
  by_cases same : d = c
  · subst same
    rw [Function.update_self] at at_phase
    exact here drain phase at_phase
  · rw [Function.update_of_ne same] at at_phase
    exact (handed.phases d drain phase at_phase).later before

private theorem Step.phases {allowed : Allowed} {label : Label}
    (fits : N ≤ usizeMax) (step : Step machine s label t)
    (disciplined : Disciplined label) (allows : s.server.Allows allowed label)
    (ring : s.RingOk) (orderly : s.server.Orderly machine allowed)
    (handed : s.HandedOver machine) (before : s.Before machine t) :
    ∀ c drain phase, t.frames c = .draining drain phase →
      phase.HandoverOk machine t := by
  have whole := step
  cases step with
  | pollQueued | pollDone | dropRoom | dropQueued | dropDone =>
      intro c drain phase at_phase
      exact (handed.phases c drain phase at_phase).later before
  | @offer c caller job queue outcome here locked =>
      cases outcome <;>
        refine phases_of_put handed before rfl ?_ <;> rintro drain phase ⟨⟩ <;>
        trivial
  | @loop c drain terminated queue next room here locked =>
      cases next <;>
        refine phases_of_put handed before rfl ?_ <;> rintro drain phase ⟨⟩ <;>
        trivial
  | @pendingDrop c drain job ticket here =>
      refine phases_of_put handed before rfl ?_
      rintro drain phase ⟨⟩ own rfl
      simp [State.put, State.resolve]
  | @guardReads c drain cause here unlocked =>
      refine phases_of_put handed before rfl ?_
      rintro drain phase ⟨⟩
      have rejected : cause.Rejected s := handed.phases c _ _ here
      exact rejected.later before
  | @guardHands c drain cause terminated queue stranded room here locked =>
      refine phases_of_put handed before rfl ?_
      rintro drain phase ⟨⟩
      have rejected : cause.Rejected s := handed.phases c _ _ here
      have spec := FifoQueue.unwind_spec fits ring terminated
      rw [locked] at spec
      obtain ⟨-, one⟩ := whole.refines fits ring
      have after := one.orderly allows orderly
      refine ⟨rejected.later before, ?_, ?_⟩
      · intro entry member
        obtain ⟨waiter, registered, rfl⟩ := List.mem_map.mp member
        exact ⟨Nat.le_refl _, .inl registered⟩
      · intro closed entry behind
        have all : stranded = s.queue.entries := by
          rw [← spec.entries, spec.entries_nil (spec.terminated.symm.trans closed),
            List.append_nil]
        have ok := after.stages c (.stranding stranded)
          (by simp [State.server_put, Server.move, Frame.stage, Phase.stage])
        rw [all] at ok ⊢
        exact ⟨ok.2 entry behind, .inl behind⟩
  | @strand c drain handover job ticket stranded room here =>
      refine phases_of_put handed before rfl ?_
      rintro drain phase ⟨⟩
      obtain ⟨rejected, wakes, strands⟩ := handed.phases c _ _ here
      refine ⟨rejected.later before, wakes.later before, ?_⟩
      intro closed entry behind
      obtain ⟨skipped, owed⟩ := strands.later before closed entry behind
      refine ⟨skipped, ?_⟩
      rcases owed with listed | paid
      · rcases List.mem_cons.mp listed with rfl | later
        · exact .inr (by simp [State.put, State.resolve])
        · exact .inl later
      · exact .inr paid
  | @stranded c drain handover room here =>
      refine phases_of_put handed before rfl ?_
      rintro drain phase ⟨⟩
      obtain ⟨rejected, wakes, strands⟩ := handed.phases c _ _ here
      exact ⟨rejected.later before, wakes.later before, strands.later before⟩
  | @rouse c drain handover waiter room here =>
      refine phases_of_put handed before rfl ?_
      rintro drain phase ⟨⟩
      obtain ⟨rejected, wakes, strands⟩ := handed.phases c _ _ here
      refine ⟨rejected.later before, wakes.wake before ?_,
        strands.later before⟩
      simp [State.put, State.wake, (handed.honest waiter).wake_woken]
  | guardActs | wakerPanics | lastWakerPanics => exact absurd rfl disciplined
  | _ =>
      refine phases_of_put handed before rfl ?_
      rintro drain phase ⟨⟩ <;> trivial

/-- One step keeps every guard at what it owes. -/
theorem Step.handedOver {allowed : Allowed} {label : Label}
    (fits : N ≤ usizeMax) (step : Step machine s label t)
    (disciplined : Disciplined label) (allows : s.server.Allows allowed label)
    (ring : s.RingOk) (orderly : s.server.Orderly machine allowed)
    (ticketed : s.server.Ticketed) (handed : s.HandedOver machine) :
    t.HandedOver machine := by
  obtain ⟨honest, -⟩ := step.woken handed
  have before := step.before fits disciplined ring orderly ticketed handed
  exact ⟨honest,
    step.phases fits disciplined allows ring orderly handed before⟩

end SmlRs.Scheduler
