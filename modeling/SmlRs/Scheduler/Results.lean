/-
Module: SmlRs.Scheduler.Results
Purpose: What `offer` returns belongs to the event it was called with: its own
  ticket, or its own result.
Trusted boundary: none
Main exports: Drain.Answered, Phase.AnswerOk, Frame.AnswerOk, State.Answers,
  Step.answers
-/
import SmlRs.Scheduler.Server

namespace SmlRs.Scheduler

open Utility

variable {M E : Type*} {N : Nat} {machine : SyncMachineStep M E}

/-- The drain knows the result of its caller's event, or the event's ticket. -/
def Drain.Answered (history : History E) (drain : Drain E) : Prop :=
  match drain.own with
  | some ticket => (ticket, drain.job) ∈ history.issued
  | none => ∃ accepted, drain.accepted = some accepted ∧
      { job := drain.job, ticket := none, accepted } ∈ history.resolutions

/-- A drain that does not know it yet is at its caller's event. -/
def Phase.AnswerOk (history : History E) (drain : Drain E) : Phase E → Prop
  | .running job ticket _ | .stepping job ticket
  | .resolving job ticket _ _ | .panicked job ticket =>
      drain.Answered history ∨
        drain.own = none ∧ drain.accepted = none ∧ job = drain.job ∧
          ticket = none
  | .looping _ | .waking .. | .finishing _ | .dropping =>
      drain.Answered history
  | .reading cause | .handing cause _ =>
      cause = .foreign true → drain.Answered history
  | .stranding handover _ _ | .rousing handover _ =>
      handover.cause = .foreign true → drain.Answered history

/-- What a caller is about to return is about its own event. -/
def Frame.AnswerOk (history : History E) : Frame E → Prop
  | .draining drain phase => phase.AnswerOk history drain
  | .offered _ job (.queued ticket) => (ticket, job) ∈ history.issued
  | .offered _ job (.done accepted) =>
      { job, ticket := none, accepted } ∈ history.resolutions
  | .idle | .offering .. | .offered _ _ .full | .polling .. => True

/-- Every caller returns the ticket or the result of its own event. -/
def State.Answers (s : State M E N) : Prop :=
  ∀ c, (s.frames c).AnswerOk s.history

/-- Two histories of which the second is the later one. -/
structure History.Le (before after : History E) : Prop where
  issued : before.issued <+: after.issued
  resolutions : before.resolutions <+: after.resolutions

variable {before after : History E}

theorem Drain.Answered.later {drain : Drain E}
    (answered : drain.Answered before) (le : before.Le after) :
    drain.Answered after := by
  unfold Drain.Answered at answered ⊢
  split
  · rename_i ticket own
    rw [own] at answered
    exact le.issued.subset answered
  · rename_i own
    rw [own] at answered
    obtain ⟨accepted, known, logged⟩ := answered
    exact ⟨accepted, known, le.resolutions.subset logged⟩

theorem Phase.AnswerOk.later {drain : Drain E} {phase : Phase E}
    (ok : phase.AnswerOk before drain) (le : before.Le after) :
    phase.AnswerOk after drain := by
  cases phase with
  | running | stepping | resolving | panicked =>
      exact Or.imp_left (fun answered => answered.later le) ok
  | looping | waking | finishing | dropping =>
      exact Drain.Answered.later ok le
  | reading | handing | stranding | rousing =>
      exact fun returning => (ok returning).later le

theorem Frame.AnswerOk.later {frame : Frame E} (ok : frame.AnswerOk before)
    (le : before.Le after) : frame.AnswerOk after := by
  cases frame with
  | draining drain phase => exact Phase.AnswerOk.later ok le
  | offered caller job result =>
      cases result with
      | queued => exact le.issued.subset ok
      | done => exact le.resolutions.subset ok
      | full => trivial
  | _ => trivial

/-- What an answered drain returns. -/
theorem Drain.Answered.result {drain : Drain E} {caller : Caller}
    (answered : drain.Answered before) :
    (Frame.offered caller drain.job drain.result).AnswerOk before := by
  unfold Drain.Answered at answered
  unfold Drain.result
  split
  · rename_i ticket own
    rw [own] at answered
    exact answered
  · rename_i own
    rw [own] at answered
    obtain ⟨accepted, known, logged⟩ := answered
    simpa [Frame.AnswerOk, known] using logged

/-- A drain that resolves its first job is answered. -/
theorem Drain.Answered.accept {drain : Drain E} {job : Job E}
    {ticket : Option TicketId} {accepted : Bool}
    (ok : drain.Answered before ∨ drain.own = none ∧ drain.accepted = none ∧
      job = drain.job ∧ ticket = none) :
    (drain.accept accepted).Answered
      (before.resolve job ticket accepted) := by
  have le : before.Le (before.resolve job ticket accepted) :=
    ⟨List.prefix_rfl, List.prefix_append _ _⟩
  rcases ok with answered | ⟨own, unknown, rfl, rfl⟩
  · have later := answered.later le
    unfold Drain.Answered at later ⊢
    simp only [Drain.accept]
    split
    · rename_i ticket own
      rw [own] at later
      exact later
    · rename_i own
      rw [own] at later
      obtain ⟨known, is_known, logged⟩ := later
      exact ⟨known, by rw [is_known]; rfl, logged⟩
  · unfold Drain.Answered
    simp only [Drain.accept, own, unknown]
    exact ⟨accepted, rfl, by simp [History.resolve]⟩

variable {s t : State M E N}

/-- The frames after one caller moved. -/
private theorem answers_of_put {c : Nat} {frame : Frame E}
    (answers : s.Answers) (le : s.history.Le t.history)
    (frames : t.frames = Function.update s.frames c frame)
    (here : frame.AnswerOk t.history) : t.Answers := by
  intro d
  rw [frames]
  by_cases same : d = c
  · subst same
    rwa [Function.update_self]
  · rw [Function.update_of_ne same]
    exact (answers d).later le

/-- One step keeps every answer its caller's own. -/
theorem Step.answers (fits : N ≤ usizeMax) {label : Label}
    (step : Step machine s label t) (ring : s.RingOk) (answers : s.Answers) :
    t.Answers := by
  have refl : ∀ {after : History E}, after.issued = s.history.issued →
      after.resolutions = s.history.resolutions → s.history.Le after := by
    intro after issued resolutions
    exact ⟨issued ▸ List.prefix_rfl, resolutions ▸ List.prefix_rfl⟩
  have resolves : ∀ {job ticket accepted},
      s.history.Le (s.history.resolve job ticket accepted) :=
    ⟨List.prefix_rfl, List.prefix_append _ _⟩
  cases step with
  | pollQueued | pollDone | dropRoom | dropQueued | dropDone => exact answers
  | @offer c caller job queue outcome here locked =>
      have spec :=
        FifoQueue.offer_spec fits ring job s.nextTicket caller.waiter
      rw [locked] at spec
      cases spec with
      | terminated =>
          exact answers_of_put answers resolves rfl
            (List.mem_append_right _ List.mem_cons_self)
      | full => exact answers_of_put answers (refl rfl rfl) rfl trivial
      | queued =>
          exact answers_of_put answers
            ⟨List.prefix_append _ _, List.prefix_rfl⟩ rfl
            (List.mem_append_right _ List.mem_cons_self)
      | drainOlder =>
          refine answers_of_put answers
            ⟨List.prefix_append _ _, List.prefix_rfl⟩ rfl (.inl ?_)
          exact List.mem_append_right _ List.mem_cons_self
      | drainOwn =>
          exact answers_of_put answers (refl rfl rfl) rfl
            (.inr ⟨rfl, rfl, rfl, rfl⟩)
  | @loop c drain terminated queue next room here locked =>
      have ok := answers c
      rw [here] at ok
      cases next with
      | none => exact answers_of_put answers (refl rfl rfl) rfl ok
      | some entry => exact answers_of_put answers (refl rfl rfl) rfl ok
  | @resolve c drain job ticket accepted terminated here =>
      have ok := answers c
      rw [here] at ok
      exact answers_of_put answers resolves rfl (Drain.Answered.accept ok)
  | @skip c drain job ticket here | @beginStep c drain job ticket here
  | @stepReturns c drain job ticket core accepted here
  | @stepPanics c drain job ticket core here
  | @wakeNext c drain waiter room job ticket terminated here
  | @wakeLast c drain waiter room here
  | @finish c drain here
  | @guardReads c drain cause here
  | @stranded c drain handover room here
  | @rouse c drain handover waiter room here =>
      have ok := answers c
      rw [here] at ok
      exact answers_of_put answers (refl rfl rfl) rfl ok
  | @runNext c drain job ticket terminated here =>
      have ok := answers c
      rw [here] at ok
      exact answers_of_put answers (refl rfl rfl) rfl (.inl ok)
  | @guardHands c drain cause terminated queue stranded room here =>
      have ok := answers c
      rw [here] at ok
      exact answers_of_put answers (refl rfl rfl) rfl ok
  | @guardReturns c drain here =>
      have ok := answers c
      rw [here] at ok
      exact answers_of_put answers (refl rfl rfl) rfl (Drain.Answered.result ok)
  | @guardActs c drain here =>
      have ok := answers c
      rw [here] at ok
      exact answers_of_put answers (refl rfl rfl) rfl fun _ => ok
  | wakerPanics | lastWakerPanics =>
      refine answers_of_put answers (refl rfl rfl) rfl ?_
      rintro ⟨⟩
  | pendingDrop =>
      refine answers_of_put answers resolves rfl ?_
      rintro ⟨⟩
  | @strand c drain handover job ticket stranded room here =>
      have ok := answers c
      rw [here] at ok
      exact answers_of_put answers resolves rfl
        fun returning => (ok returning).later resolves
  | @rousedReturning c drain handover here returning =>
      have ok := answers c
      rw [here] at ok
      exact answers_of_put answers (refl rfl rfl) rfl
        (Drain.Answered.result (ok returning))
  | _ => exact answers_of_put answers (refl rfl rfl) rfl trivial

end SmlRs.Scheduler
