/-
Module: SmlRs.Scheduler.Submissions
Purpose: Every submission is one job: it is held by its caller or by its
  completion until `offer` admits it, at most once, or until it is given up.
Trusted boundary: none
Main exports: Frame.polls, State.Lent, Step.lent, Desk, Desk.Step, State.desk,
  Step.desk, Desk.Sound, Desk.Dead
-/
import SmlRs.Lib.Ledger
import SmlRs.Scheduler.Fifo

namespace SmlRs.Scheduler

open Lib

variable {M E : Type*} {N : Nat} {machine : SyncMachineStep M E}

/-- The completion a caller's frame polls. -/
def Caller.polls : Caller → Option Nat
  | .submit | .trySubmit => none
  | .poll completion _ _ => some completion

def Frame.polls : Frame E → Option Nat
  | .idle => none
  | .offering caller _ | .offered caller _ _ => caller.polls
  | .draining drain _ => drain.caller.polls
  | .polling completion _ _ => some completion

/-- A completion is polled by one caller at a time, which borrows it. -/
structure State.Lent (s : State M E N) : Prop where
  borrowed : ∀ {c completion}, (s.frames c).polls = some completion →
    s.completions completion = .borrowed
  alone : ∀ {c d completion}, (s.frames c).polls = some completion →
    (s.frames d).polls = some completion → c = d

namespace State.Lent

variable {s t : State M E N} {c : Nat} {frame : Frame E}

/-- A caller moves on in the call it is in, or leaves it. -/
theorem keep (lent : s.Lent) (completions : t.completions = s.completions)
    (frames : t.frames = Function.update s.frames c frame)
    (same : ∀ completion, frame.polls = some completion →
      (s.frames c).polls = some completion) : t.Lent := by
  have before : ∀ {d completion}, (t.frames d).polls = some completion →
      (s.frames d).polls = some completion := by
    intro d completion polls
    rw [frames] at polls
    by_cases at_caller : d = c
    · subst at_caller
      rw [Function.update_self] at polls
      exact same completion polls
    · rwa [Function.update_of_ne at_caller] at polls
  constructor
  · intro d completion polls
    rw [completions]
    exact lent.borrowed (before polls)
  · intro d other completion one two
    exact lent.alone (before one) (before two)

/-- A completion nobody polls changes. -/
theorem change (lent : s.Lent) {completion : Nat} {value : Completion E}
    (present : s.completions completion ≠ .borrowed)
    (completions : t.completions =
      Function.update s.completions completion value)
    (frames : t.frames = s.frames) : t.Lent := by
  constructor
  · intro d other polls
    rw [frames] at polls
    have borrowed := lent.borrowed polls
    have apart : other ≠ completion := by
      rintro rfl
      exact present borrowed
    rw [completions, Function.update_of_ne apart]
    exact borrowed
  · rw [frames]
    exact lent.alone

/-- A poll takes a completion out. -/
theorem borrow (lent : s.Lent) {completion : Nat}
    (present : s.completions completion ≠ .borrowed)
    (completions : t.completions =
      Function.update s.completions completion .borrowed)
    (frames : t.frames = Function.update s.frames c frame)
    (polls : frame.polls = some completion) : t.Lent := by
  have old : ∀ {d other}, d ≠ c → (t.frames d).polls = some other →
      (s.frames d).polls = some other := by
    intro d other apart asks
    rwa [frames, Function.update_of_ne apart] at asks
  have own : ∀ {other}, (t.frames c).polls = some other →
      other = completion := by
    intro other asks
    rw [frames, Function.update_self, polls] at asks
    exact (Option.some.inj asks).symm
  constructor
  · intro d other asks
    by_cases same : other = completion
    · subst same
      rw [completions, Function.update_self]
    · rw [completions, Function.update_of_ne same]
      by_cases at_caller : d = c
      · subst at_caller
        exact absurd (own asks) same
      · exact lent.borrowed (old at_caller asks)
  · intro d e other one two
    by_cases first : d = c
    · by_cases second : e = c
      · rw [first, second]
      · subst first
        have asked := lent.borrowed (old second two)
        rw [own one] at asked
        exact absurd asked present
    · by_cases second : e = c
      · subst second
        have asked := lent.borrowed (old first one)
        rw [own two] at asked
        exact absurd asked present
      · exact lent.alone (old first one) (old second two)

/-- A call puts its result in a completion nobody else polls and ends. -/
theorem settle (lent : s.Lent) {completion : Nat} {value : Completion E}
    (mine : s.completions completion ≠ .borrowed ∨
      (s.frames c).polls = some completion)
    (completions : t.completions =
      Function.update s.completions completion value)
    (frames : t.frames = Function.update s.frames c .idle) : t.Lent := by
  have before : ∀ {d other}, (t.frames d).polls = some other →
      d ≠ c ∧ (s.frames d).polls = some other := by
    intro d other polls
    rw [frames] at polls
    by_cases at_caller : d = c
    · subst at_caller
      rw [Function.update_self] at polls
      cases polls
    · exact ⟨at_caller, by rwa [Function.update_of_ne at_caller] at polls⟩
  constructor
  · intro d other polls
    obtain ⟨away, asked⟩ := before polls
    have apart : other ≠ completion := by
      rintro rfl
      rcases mine with present | own
      · exact present (lent.borrowed asked)
      · exact away (lent.alone asked own)
    rw [completions, Function.update_of_ne apart]
    exact lent.borrowed asked
  · intro d other completion one two
    exact lent.alone (before one).2 (before two).2

end State.Lent

/-- One step keeps borrowed completions borrowed by one caller. -/
theorem Step.lent {label : Label} {s t : State M E N}
    (step : Step machine s label t) (lent : s.Lent) : t.Lent := by
  cases step with
  | submit event here | trySubmit event here =>
      exact lent.keep rfl rfl (by simp [Frame.polls, Caller.polls])
  | pollRoom waker idle held =>
      exact lent.borrow (by simp [held]) rfl rfl rfl
  | pollQueued | pollDone => exact ⟨lent.borrowed, lent.alone⟩
  | dropRoom idle held | dropQueued idle held | dropDone idle held =>
      exact lent.change (by simp [held]) rfl rfl
  | @offer c caller job queue outcome here locked =>
      cases outcome <;>
        exact lent.keep rfl rfl (by simp [here, Frame.polls])
  | @loop c drain terminated queue next room here locked =>
      cases next <;> exact lent.keep rfl rfl (by simp [here, Frame.polls])
  | skip here | beginStep here | stepReturns here | stepPanics here
  | resolve here | wakeNext here | runNext here | wakeLast here
  | finish here | guardReturns here | guardActs here | wakerPanics here
  | lastWakerPanics here | pendingDrop here | guardReads here
  | guardHands here | strand here | stranded here | rouse here
  | rousedReturning here =>
      exact lent.keep rfl rfl (by simp [here, Frame.polls, Drain.accept])
  | unwound here | returnFull here =>
      exact lent.keep rfl rfl (by simp [Frame.polls])
  | polledQueued here =>
      exact lent.keep rfl rfl (by simp [here, Frame.polls, Caller.polls])
  | returnDone here new free | returnQueued here new free
  | returnRoom here free =>
      exact lent.settle (.inl (by simp [free])) rfl rfl
  | unwoundPoll here unwinding polled =>
      exact lent.settle (.inr (by simp [here, Frame.polls, polled,
        Caller.polls])) rfl rfl
  | polledRoom here | polledDone here | pollTicket here =>
      exact lent.settle (.inr (by simp [here, Frame.polls, Caller.polls]))
        rfl rfl

/-- The job a caller holds: `offer` has not admitted it. -/
def Frame.loose : Frame E → List (Job E)
  | .offering _ job | .offered _ job .full => [job]
  | .idle | .draining .. | .offered _ _ (.done _) | .offered _ _ (.queued _)
  | .polling .. => []

/-- The job a completion holds while it waits for room. -/
def Completion.loose : Completion E → List (Job E)
  | .held (.room job _) => [job]
  | .free | .held (.done _) | .held (.queued _) | .borrowed | .dropped => []

/-- The jobs that are not admitted, by the caller (`inl`) or the completion
(`inr`) that holds them, and the jobs that are. -/
structure Desk (E : Type*) where
  loose : Nat ⊕ Nat → List (Job E)
  nextSerial : Nat
  admitted : List (Job E)

namespace Desk

/-- What one step of a caller does to a submission. -/
inductive Step (D : Desk E) : Desk E → Prop where
  | stay : Step D D
  | create (c : Nat) (job : Job E) (new : job.serial = D.nextSerial)
      (empty : D.loose (.inl c) = []) :
      Step D
        { D with
          loose := Function.update D.loose (.inl c) (D.loose (.inl c) ++ [job])
          nextSerial := D.nextSerial + 1 }
  | pass (giver taker : Nat ⊕ Nat) (job : Job E) (apart : taker ≠ giver)
      (first : D.loose giver = [job]) (empty : D.loose taker = []) :
      Step D
        { D with
          loose :=
            Function.update (Function.update D.loose giver []) taker [job] }
  | discard (holder : Nat ⊕ Nat) (job : Job E)
      (first : D.loose holder = [job]) :
      Step D { D with loose := Function.update D.loose holder [] }
  | enter (holder : Nat ⊕ Nat) (job : Job E)
      (first : D.loose holder = [job]) :
      Step D
        { D with
          loose := Function.update D.loose holder []
          admitted := D.admitted ++ [job] }

/-- Serial numbers name submissions: no two jobs share one. -/
structure Sound (D : Desk E) : Prop where
  placed : Placed Job.serial D.loose
  loose_lt : ∀ holder, ∀ job ∈ D.loose holder, job.serial < D.nextSerial
  admitted_lt : ∀ job ∈ D.admitted, job.serial < D.nextSerial
  apart : ∀ holder, ∀ job ∈ D.loose holder, ∀ other ∈ D.admitted,
    job.serial ≠ other.serial
  nodup : (D.admitted.map Job.serial).Nodup

/-- Nobody holds the submission any more, and it was not admitted. -/
structure Dead (D : Desk E) (serial : Nat) : Prop where
  lt : serial < D.nextSerial
  unheld : ∀ holder, ∀ job ∈ D.loose holder, job.serial ≠ serial
  unadmitted : ∀ job ∈ D.admitted, job.serial ≠ serial

variable {D F : Desk E}

theorem Step.sound (step : Step D F) (sound : D.Sound) : F.Sound := by
  have held : ∀ {holder job}, D.loose holder = [job] → job ∈ D.loose holder := by
    intro holder job first
    rw [first]
    exact List.mem_cons_self
  cases step with
  | stay => exact sound
  | create c job new empty =>
      have fresh : ∀ place, ∀ twin ∈ D.loose place,
          twin.serial ≠ job.serial := by
        intro place twin member
        rw [new]
        exact Nat.ne_of_lt (sound.loose_lt place twin member)
      have either : ∀ {holder twin}, twin ∈ Function.update D.loose (.inl c)
          (D.loose (.inl c) ++ [job]) holder →
            (∃ place, twin ∈ D.loose place) ∨ twin = job := fun member =>
        Placed.mem_append.mp ⟨_, member⟩
      refine ⟨sound.placed.append fresh, ?_, ?_, ?_, sound.nodup⟩
      · intro holder twin member
        rcases either member with ⟨place, old⟩ | rfl
        · exact Nat.lt_succ_of_lt (sound.loose_lt place twin old)
        · exact Nat.lt_succ_of_le (Nat.le_of_eq new)
      · intro other admitted
        exact Nat.lt_succ_of_lt (sound.admitted_lt other admitted)
      · intro holder twin member other admitted
        rcases either member with ⟨place, old⟩ | rfl
        · exact sound.apart place twin old other admitted
        · rw [new]
          exact Nat.ne_of_gt (sound.admitted_lt other admitted)
  | pass giver taker job apart first empty =>
      have old : ∀ {holder twin}, twin ∈ Function.update
          (Function.update D.loose giver []) taker [job] holder →
            ∃ place, twin ∈ D.loose place := fun member =>
        (Placed.exists_mem_transfer apart (by simpa using first) empty).mp
          ⟨_, member⟩
      refine ⟨sound.placed.transfer apart (by simpa using first) empty,
        ?_, sound.admitted_lt, ?_, sound.nodup⟩
      · intro holder twin member
        obtain ⟨place, member⟩ := old member
        exact sound.loose_lt place twin member
      · intro holder twin member
        obtain ⟨place, member⟩ := old member
        exact sound.apart place twin member
  | discard holder job first =>
      exact ⟨sound.placed.tail first,
        fun _ twin member =>
          sound.loose_lt _ twin (Placed.mem_tail first member),
        sound.admitted_lt,
        fun _ twin member =>
          sound.apart _ twin (Placed.mem_tail first member),
        sound.nodup⟩
  | enter holder job first =>
      refine ⟨sound.placed.tail first,
        fun _ twin member =>
          sound.loose_lt _ twin (Placed.mem_tail first member), ?_, ?_, ?_⟩
      · intro other admitted
        rcases List.mem_append.mp admitted with old | new
        · exact sound.admitted_lt other old
        · rw [List.mem_singleton.mp new]
          exact sound.loose_lt holder job (held first)
      · intro place twin member other admitted
        rcases List.mem_append.mp admitted with old | new
        · exact sound.apart _ twin (Placed.mem_tail first member) other old
        · rw [List.mem_singleton.mp new]
          exact sound.placed.tail_apart first member
      · rw [List.map_append, List.map_singleton, List.nodup_append]
        refine ⟨sound.nodup, List.nodup_singleton _, ?_⟩
        intro one listed two single same
        obtain ⟨other, admitted, rfl⟩ := List.mem_map.mp listed
        rw [List.mem_singleton.mp single] at same
        exact sound.apart holder job (held first) other admitted same.symm

/-- A dead submission stays dead. -/
theorem Step.dead {serial : Nat} (step : Step D F) (dead : D.Dead serial) :
    F.Dead serial := by
  cases step with
  | stay => exact dead
  | create c job new empty =>
      refine ⟨Nat.lt_succ_of_lt dead.lt, ?_, dead.unadmitted⟩
      intro holder twin member
      rcases Placed.mem_append.mp ⟨holder, member⟩ with ⟨place, old⟩ | rfl
      · exact dead.unheld place twin old
      · rw [new]
        exact Nat.ne_of_gt dead.lt
  | pass giver taker job apart first empty =>
      refine ⟨dead.lt, ?_, dead.unadmitted⟩
      intro holder twin member
      obtain ⟨place, old⟩ := (Placed.exists_mem_transfer apart
        (by simpa using first) empty).mp ⟨holder, member⟩
      exact dead.unheld place twin old
  | discard holder job first =>
      exact ⟨dead.lt,
        fun _ twin member => dead.unheld _ twin (Placed.mem_tail first member),
        dead.unadmitted⟩
  | enter holder job first =>
      refine ⟨dead.lt,
        fun _ twin member => dead.unheld _ twin (Placed.mem_tail first member),
        ?_⟩
      intro other admitted
      rcases List.mem_append.mp admitted with old | new
      · exact dead.unadmitted other old
      · rw [List.mem_singleton.mp new]
        exact dead.unheld holder job (by rw [first]; exact List.mem_cons_self)

/-- Giving a submission up makes it dead. -/
theorem Sound.discarded {holder : Nat ⊕ Nat} {job : Job E} (sound : D.Sound)
    (first : D.loose holder = [job]) :
    ({ D with loose := Function.update D.loose holder [] } : Desk E).Dead
      job.serial where
  lt := sound.loose_lt holder job (by rw [first]; exact List.mem_cons_self)
  unheld := fun _ _ member => sound.placed.tail_apart first member
  unadmitted := fun other admitted same =>
    sound.apart holder job (by rw [first]; exact List.mem_cons_self) other
      admitted same.symm

end Desk

namespace State

/-- Who holds which job that is not admitted. -/
def loose (frames : Nat → Frame E) (completions : Nat → Completion E) :
    Nat ⊕ Nat → List (Job E)
  | .inl c => (frames c).loose
  | .inr completion => (completions completion).loose

theorem loose_frame (frames : Nat → Frame E) (completions : Nat → Completion E)
    (c : Nat) (frame : Frame E) :
    loose (Function.update frames c frame) completions =
      Function.update (loose frames completions) (.inl c) frame.loose := by
  funext holder
  cases holder with
  | inl other =>
      by_cases same : other = c
      · subst same
        simp [loose]
      · simp [loose, same]
  | inr => simp [loose]

theorem loose_completion (frames : Nat → Frame E)
    (completions : Nat → Completion E) (completion : Nat)
    (value : Completion E) :
    loose frames (Function.update completions completion value) =
      Function.update (loose frames completions) (.inr completion)
        value.loose := by
  funext holder
  cases holder with
  | inl => simp [loose]
  | inr other =>
      by_cases same : other = completion
      · subst same
        simp [loose]
      · simp [loose, same]

def desk (s : State M E N) : Desk E :=
  { loose := loose s.frames s.completions
    nextSerial := s.nextSerial
    admitted := s.history.admitted }

theorem loose_frame_same {frames : Nat → Frame E}
    {completions : Nat → Completion E} {c : Nat} {old frame : Frame E}
    (here : frames c = old) (same : frame.loose = old.loose) :
    loose (Function.update frames c frame) completions =
      loose frames completions := by
  rw [loose_frame, same, ← here]
  exact Function.update_eq_self (Sum.inl c) (loose frames completions)

theorem loose_completion_same {frames : Nat → Frame E}
    {completions : Nat → Completion E} {completion : Nat}
    {old value : Completion E} (here : completions completion = old)
    (same : value.loose = old.loose) :
    loose frames (Function.update completions completion value) =
      loose frames completions := by
  rw [loose_completion, same, ← here]
  exact Function.update_eq_self (Sum.inr completion) (loose frames completions)

end State

section Desk

variable {s t : State M E N}

private theorem desk_stay (loose : t.desk.loose = s.desk.loose)
    (serial : t.nextSerial = s.nextSerial)
    (admitted : t.history.admitted = s.history.admitted) :
    Desk.Step s.desk t.desk := by
  have same : t.desk = s.desk := by
    simp only [State.desk] at loose ⊢
    rw [loose, serial, admitted]
  rw [same]
  exact .stay

/-- A caller moves on without touching the job it holds. -/
private theorem desk_move {c : Nat} {old frame : Frame E}
    (here : s.frames c = old)
    (frames : t.frames = Function.update s.frames c frame)
    (same : frame.loose = old.loose)
    (completions : t.completions = s.completions)
    (serial : t.nextSerial = s.nextSerial)
    (admitted : t.history.admitted = s.history.admitted) :
    Desk.Step s.desk t.desk := by
  refine desk_stay ?_ serial admitted
  rw [State.desk, frames, completions]
  exact State.loose_frame_same here same

/-- A caller ends its call and leaves no job in the completion it fills. -/
private theorem desk_settle {c completion : Nat} {old frame : Frame E}
    {value : Completion E} (here : s.frames c = old)
    (frames : t.frames = Function.update s.frames c frame)
    (completions : t.completions =
      Function.update s.completions completion value)
    (empty : old.loose = []) (idle : frame.loose = [])
    (blank : (s.completions completion).loose = [])
    (settled : value.loose = [])
    (serial : t.nextSerial = s.nextSerial)
    (admitted : t.history.admitted = s.history.admitted) :
    Desk.Step s.desk t.desk := by
  refine desk_stay ?_ serial admitted
  rw [State.desk, frames, completions]
  exact (State.loose_frame_same here (idle.trans empty.symm)).trans
    (State.loose_completion_same rfl (settled.trans blank.symm))

/-- A caller that got no place passes its job to a completion. -/
private theorem desk_park {c completion : Nat} {old : Frame E} {job : Job E}
    {waiter : WaiterId} (here : s.frames c = old) (first : old.loose = [job])
    (blank : (s.completions completion).loose = [])
    (frames : t.frames = Function.update s.frames c .idle)
    (completions : t.completions =
      Function.update s.completions completion (.held (.room job waiter)))
    (serial : t.nextSerial = s.nextSerial)
    (admitted : t.history.admitted = s.history.admitted) :
    Desk.Step s.desk t.desk := by
  have pass := Desk.Step.pass (D := s.desk) (.inl c) (.inr completion) job
    (by simp) (by simp [State.desk, State.loose, here, first])
    (by simp [State.desk, State.loose, blank])
  convert pass using 1
  rw [State.desk, frames, completions, serial, admitted,
    State.loose_completion, State.loose_frame]
  rfl

/-- The job a caller holds is admitted, or given up. -/
private theorem desk_leave {c : Nat} {old frame : Frame E} {job : Job E}
    (here : s.frames c = old)
    (frames : t.frames = Function.update s.frames c frame)
    (completions : t.completions = s.completions)
    (first : old.loose = [job]) (gone : frame.loose = [])
    (serial : t.nextSerial = s.nextSerial)
    (admitted : t.history.admitted = s.history.admitted ∨
      t.history.admitted = s.history.admitted ++ [job]) :
    Desk.Step s.desk t.desk := by
  have holds : s.desk.loose (.inl c) = [job] := by
    simp [State.desk, State.loose, here, first]
  have left : t.desk.loose = Function.update s.desk.loose (.inl c) [] := by
    simp only [State.desk, frames, completions, State.loose_frame, gone]
  rcases admitted with stays | grows
  · have discard := Desk.Step.discard (D := s.desk) (.inl c) job holds
    convert discard using 1
    rw [← left]
    simp only [State.desk, serial, stays]
  · have enter := Desk.Step.enter (D := s.desk) (.inl c) job holds
    convert enter using 1
    rw [← left]
    simp only [State.desk, serial, grows]

end Desk

/-- What a step of a caller does to the submissions. -/
theorem Step.desk {label : Label} {s t : State M E N}
    (step : Step machine s label t) (lent : s.Lent) :
    Desk.Step s.desk t.desk := by
  cases step with
  | @submit c event here | @trySubmit c event here =>
      have create := Desk.Step.create (D := s.desk) c
        { event, serial := s.nextSerial } rfl
        (by simp [State.desk, State.loose, here, Frame.loose])
      convert create using 1
      simp [State.desk, State.put, State.loose_frame, Frame.loose,
        State.loose, here]
  | @pollRoom c completion waiter job waker here held =>
      have pass := Desk.Step.pass (D := s.desk) (.inr completion) (.inl c) job
        (by simp) (by simp [State.desk, State.loose, held, Completion.loose])
        (by simp [State.desk, State.loose, here, Frame.loose])
      convert pass using 1
      rw [State.desk, State.put, State.loose_frame, State.loose_completion]
      rfl
  | pollQueued | pollDone => exact .stay
  | @dropRoom c completion waiter job here held =>
      have discard := Desk.Step.discard (D := s.desk) (.inr completion) job
        (by simp [State.desk, State.loose, held, Completion.loose])
      convert discard using 1
      simp [State.desk, State.loose_completion, Completion.loose]
  | dropQueued here held | dropDone here held =>
      refine desk_stay ?_ rfl rfl
      exact State.loose_completion_same held rfl
  | @offer c caller job queue outcome here locked =>
      cases outcome with
      | full => exact desk_move here rfl rfl rfl rfl rfl
      | terminated => exact desk_leave here rfl rfl rfl rfl rfl (.inl rfl)
      | deferFailed | drainOlderDeferFailed =>
          exact desk_leave here rfl rfl rfl rfl rfl (.inl rfl)
      | queued | drainOlder | drainOwn =>
          exact desk_leave here rfl rfl rfl rfl rfl (.inr rfl)
  | @loop c drain terminated queue next room here locked =>
      cases next <;> exact desk_move here rfl rfl rfl rfl rfl
  | skip here | beginStep here | stepReturns here | stepPanics here
  | resolve here | wakeNext here | runNext here | wakeLast here
  | finish here | guardActs here | wakerPanics here
  | lastWakerPanics here | pendingDrop here | guardReads here
  | guardHands here | strand here | stranded here | rouse here
  | unwound here | polledQueued here =>
      exact desk_move here rfl rfl rfl rfl rfl
  | @guardReturns c drain here | @rousedReturning c drain _ here =>
      refine desk_move here rfl ?_ rfl rfl rfl
      unfold Drain.result
      split <;> rfl
  | returnFull here => exact desk_leave here rfl rfl rfl rfl rfl (.inl rfl)
  | returnDone here new free | returnQueued here new free =>
      exact desk_settle here rfl rfl rfl rfl (by rw [free]; rfl) rfl rfl rfl
  | returnRoom here free =>
      exact desk_park here rfl (by rw [free]; rfl) rfl rfl rfl rfl
  | unwoundPoll here unwinding polled =>
      have borrowed := lent.borrowed (by
        rw [here]
        exact congrArg Caller.polls polled)
      exact desk_settle here rfl rfl rfl rfl (by rw [borrowed]; rfl) rfl rfl rfl
  | polledDone here | pollTicket here =>
      have borrowed := lent.borrowed (by rw [here]; rfl)
      exact desk_settle here rfl rfl rfl rfl (by rw [borrowed]; rfl) rfl rfl rfl
  | polledRoom here =>
      have borrowed := lent.borrowed (by rw [here]; rfl)
      exact desk_park here rfl (by rw [borrowed]; rfl) rfl rfl rfl rfl

end SmlRs.Scheduler
