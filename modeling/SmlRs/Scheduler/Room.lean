/-
Module: SmlRs.Scheduler.Room
Purpose: Who waits for room in a full queue: every registration has one owner,
  and no completion that waits loses its wake-up.
Trusted boundary: none
Main exports: Frame.owed, Ward, Ward.Step, Ward.Sound, Ward.Step.sound,
  State.ward, WakersReturn, Step.ward, no_lost_wakeup
-/
import Mathlib.Data.Sum.Basic
import SmlRs.Scheduler.Contract

namespace SmlRs.Scheduler

open Utility Lib

variable {M E : Type*} {N : Nat} {machine : SyncMachineStep M E}

/-- The waiters taken from the room list that are still to be woken. -/
def Phase.owed : Phase E → List WaiterId
  | .waking room _ _ _ | .finishing room | .stranding _ _ room
  | .rousing _ room => room
  | .running .. | .stepping .. | .resolving .. | .looping _ | .dropping
  | .panicked .. | .reading _ | .handing .. => []

def Frame.owed : Frame E → List WaiterId
  | .draining _ phase => phase.owed
  | .idle | .offering .. | .offered .. | .polling .. => []

/-- The waiter of the completion whose event a frame offers. -/
def Frame.waits : Frame E → List WaiterId
  | .offering caller _ | .offered caller _ _ => caller.waiter.toList
  | .draining drain _ => drain.caller.waiter.toList
  | .idle | .polling .. => []

/-- The waiter of a completion that waits for room. -/
def Completion.waits : Completion E → List WaiterId
  | .held (.room _ waiter) => [waiter]
  | .free | .held (.done _) | .held (.queued _) | .borrowed | .dropped => []

/-- What a call is doing about the room list. -/
inductive Stance where
  | aside
  | refused
  | drains (owed : List WaiterId)

def Frame.stance : Frame E → Stance
  | .draining _ phase => .drains phase.owed
  | .offered _ _ .full => .refused
  | .idle | .offering .. | .offered _ _ (.done _) | .offered _ _ (.queued _)
  | .polling .. => .aside

/-- The room list with those who wait, calls (`inl`) and completions (`inr`),
and those who wake. -/
structure Ward where
  room : List WaiterId
  draining : Bool
  waiters : WaiterId → Waiter
  nextWaiter : WaiterId
  waits : Nat ⊕ Nat → List WaiterId
  stances : Nat → Stance

namespace Ward

/-- What one step of a caller does to the room list. -/
inductive Step (W : Ward) : Ward → Prop where
  | stay : Step W W
  | rest (c : Nat) (paid : ∀ owed, W.stances c = .drains owed → owed = []) :
      Step W { W with stances := Function.update W.stances c .aside }
  | poll (c completion : Nat) (waiter : WaiterId) (waker : Waker)
      (held : W.waits (.inr completion) = [waiter])
      (idle : W.waits (.inl c) = []) (aside : W.stances c = .aside) :
      Step W
        { W with
          waiters := Function.update W.waiters waiter
            ((W.waiters waiter).update waker)
          waits := Function.update
            (Function.update W.waits (.inr completion) []) (.inl c) [waiter] }
  | drop (completion : Nat) (waiter : WaiterId)
      (held : W.waits (.inr completion) = [waiter]) :
      Step W
        { W with
          room := W.room.filter (· ≠ waiter)
          waits := Function.update W.waits (.inr completion) [] }
  -- A full queue registers the waiter of a poll.
  | refuse (c : Nat) (room : List WaiterId) (busy : W.draining = true)
      (aside : W.stances c = .aside)
      (nodup : W.room.Nodup → room.Nodup)
      (listed : ∀ waiter, waiter ∈ room ↔
        waiter ∈ W.room ∨ waiter ∈ W.waits (.inl c)) :
      Step W
        { W with
          room := room
          stances := Function.update W.stances c .refused }
  | start (c : Nat) (free : W.draining = false)
      (aside : W.stances c = .aside) :
      Step W
        { W with
          draining := true
          stances := Function.update W.stances c (.drains []) }
  | take (c : Nat) (draining : Bool) (drains : W.stances c = .drains []) :
      Step W
        { W with
          room := []
          draining := draining
          stances := Function.update W.stances c (.drains W.room) }
  | wake (c : Nat) (waiter : WaiterId) (owed : List WaiterId)
      (drains : W.stances c = .drains (waiter :: owed)) :
      Step W
        { W with
          waiters := Function.update W.waiters waiter (W.waiters waiter).wake
          stances := Function.update W.stances c (.drains owed) }
  -- A submission waits for room with a new waiter.
  | wait (c completion : Nat) (new : W.waits (.inr completion) = [])
      (refused : W.stances c = .refused) :
      Step W
        { W with
          nextWaiter := W.nextWaiter + 1
          waits := Function.update W.waits (.inr completion) [W.nextWaiter]
          stances := Function.update W.stances c .aside }
  -- A poll puts the event back.
  | park (c completion : Nat) (waiter : WaiterId)
      (held : W.waits (.inl c) = [waiter])
      (empty : W.waits (.inr completion) = [])
      (refused : W.stances c = .refused) :
      Step W
        { W with
          waits := Function.update (Function.update W.waits (.inl c) [])
            (.inr completion) [waiter]
          stances := Function.update W.stances c .aside }
  | forget (c : Nat) (waiter : WaiterId)
      (held : W.waits (.inl c) = [waiter]) (aside : W.stances c = .aside) :
      Step W
        { W with
          room := W.room.filter (· ≠ waiter)
          waits := Function.update W.waits (.inl c) [] }
  -- A panic leaves a poll that drained.
  | unwind (c : Nat) (waiter : WaiterId)
      (held : W.waits (.inl c) = [waiter])
      (drains : W.stances c = .drains []) :
      Step W
        { W with
          waits := Function.update W.waits (.inl c) []
          stances := Function.update W.stances c .aside }

/-- A waiter is registered, was woken since its latest poll began, or was taken
from the room list by a call that has yet to wake it. -/
def Served (W : Ward) (waiter : WaiterId) : Prop :=
  waiter ∈ W.room ∨
    (W.waiters waiter).woken = (W.waiters waiter).polls ∨
    ∃ c owed, W.stances c = .drains owed ∧ waiter ∈ owed

/-- What holds of the room list and of those who wait. -/
structure Sound (W : Ward) : Prop where
  honest : ∀ waiter, (W.waiters waiter).Honest
  placed : Placed id W.waits
  fresh : ∀ holder, ∀ waiter ∈ W.waits holder, waiter < W.nextWaiter
  unpolled : ∀ waiter, W.nextWaiter ≤ waiter → (W.waiters waiter).polls = 0
  busy : W.draining = false → W.room = []
  nodup : W.room.Nodup
  owned : ∀ waiter ∈ W.room, ∃ holder, waiter ∈ W.waits holder
  -- The room list was empty when a drain began.
  absent : ∀ c owed, W.stances c = .drains owed →
    ∀ waiter ∈ W.waits (.inl c), waiter ∉ W.room
  waiting : ∀ completion, ∀ waiter ∈ W.waits (.inr completion),
    0 < (W.waiters waiter).polls → W.Served waiter
  refused : ∀ c, W.stances c = .refused →
    ∀ waiter ∈ W.waits (.inl c), W.Served waiter

variable {W V : Ward}

theorem Step.honest (step : Step W V)
    (honest : ∀ waiter, (W.waiters waiter).Honest) :
    ∀ waiter, (V.waiters waiter).Honest := by
  intro waiter
  cases step with
  | poll c completion one waker =>
      by_cases same : waiter = one
      · subst same
        simpa using (honest waiter).update waker
      · simpa [same] using honest waiter
  | wake c one owed =>
      by_cases same : waiter = one
      · subst same
        simpa using (honest waiter).wake
      · simpa [same] using honest waiter
  | _ => exact honest waiter

/-- Where a waiter waits after a step, it waited before, unless it is new. -/
theorem Step.waited (step : Step W V) {waiter : WaiterId}
    {holder : Nat ⊕ Nat} (waits : waiter ∈ V.waits holder) :
    (∃ before, waiter ∈ W.waits before) ∨
      waiter = W.nextWaiter ∧ V.nextWaiter = W.nextWaiter + 1 := by
  cases step with
  | poll c completion one waker held idle =>
      exact .inl ((Placed.exists_mem_transfer (by simp)
        (by simpa using held) idle).mp ⟨holder, waits⟩)
  | park c completion one held empty =>
      exact .inl ((Placed.exists_mem_transfer (by simp)
        (by simpa using held) empty).mp ⟨holder, waits⟩)
  | drop completion one held | forget c one held | unwind c one held =>
      exact .inl ⟨holder, Placed.mem_tail held waits⟩
  | wait c completion new =>
      dsimp only at waits
      by_cases same : holder = .inr completion
      · subst same
        rw [Function.update_self, List.mem_singleton] at waits
        exact .inr ⟨waits, rfl⟩
      · rw [Function.update_of_ne same] at waits
        exact .inl ⟨holder, waits⟩
  | _ => exact .inl ⟨holder, waits⟩

theorem Step.placed (step : Step W V) (sound : W.Sound) :
    Placed id V.waits := by
  cases step with
  | poll c completion one waker held idle =>
      exact sound.placed.transfer (by simp) (by simpa using held) idle
  | park c completion one held empty =>
      exact sound.placed.transfer (by simp) (by simpa using held) empty
  | drop completion one held | forget c one held | unwind c one held =>
      exact sound.placed.tail held
  | wait c completion new =>
      have appended : Placed id (Function.update W.waits (.inr completion)
          (W.waits (.inr completion) ++ [W.nextWaiter])) := by
        refine sound.placed.append fun place twin member => ?_
        exact Nat.ne_of_lt (sound.fresh place twin member)
      rwa [new] at appended
  | _ => exact sound.placed

theorem Step.next (step : Step W V) : W.nextWaiter ≤ V.nextWaiter := by
  cases step with
  | wait => exact Nat.le_succ _
  | _ => exact Nat.le_refl _

theorem Step.fresh (step : Step W V) (sound : W.Sound) :
    ∀ holder, ∀ waiter ∈ V.waits holder, waiter < V.nextWaiter := by
  intro holder waiter waits
  rcases step.waited waits with ⟨before, waited⟩ | ⟨rfl, next⟩
  · exact Nat.lt_of_lt_of_le (sound.fresh before waiter waited) step.next
  · rw [next]
    exact Nat.lt_succ_self _

theorem Step.unpolled (step : Step W V) (sound : W.Sound) :
    ∀ waiter, V.nextWaiter ≤ waiter → (V.waiters waiter).polls = 0 := by
  intro waiter new
  have before := sound.unpolled waiter (Nat.le_trans step.next new)
  cases step with
  | poll c completion one waker held =>
      have old : one < W.nextWaiter :=
        sound.fresh (.inr completion) one (by simp [held])
      have apart : waiter ≠ one := by
        rintro rfl
        exact Nat.not_lt.mpr new old
      simpa [apart] using before
  | wake c one owed =>
      by_cases same : waiter = one
      · subst same
        simpa using before
      · simpa [same] using before
  | _ => exact before

/-- Registrations of a step are old ones or the ones of the caller it refuses,
and every old one is kept, taken over to be woken, or withdrawn by its owner. -/
theorem Step.registered (step : Step W V) (sound : W.Sound)
    {waiter : WaiterId} (listed : waiter ∈ V.room) :
    (∃ holder, waiter ∈ V.waits holder) ∧
      (waiter ∈ W.room ∨ V.draining = true ∧ ∃ c,
        W.stances c = .aside ∧ V.stances c = .refused ∧
          waiter ∈ W.waits (.inl c)) := by
  cases step with
  | stay | rest => exact ⟨sound.owned waiter listed, .inl listed⟩
  | poll c completion one waker held idle =>
      refine ⟨?_, .inl listed⟩
      exact (Placed.exists_mem_transfer (by simp) (by simpa using held)
        idle).mpr (sound.owned waiter listed)
  | park c completion one held empty =>
      refine ⟨?_, .inl listed⟩
      exact (Placed.exists_mem_transfer (by simp) (by simpa using held)
        empty).mpr (sound.owned waiter listed)
  | drop completion one held | forget c one held =>
      obtain ⟨before, apart⟩ := List.mem_filter.mp listed
      refine ⟨?_, .inl before⟩
      exact (Placed.exists_mem_tail held (sound.owned waiter before)).resolve_left
        (by simpa using apart)
  | refuse c room busy aside nodup keeps =>
      rcases (keeps waiter).mp listed with before | own
      · exact ⟨sound.owned waiter before, .inl before⟩
      · refine ⟨⟨_, own⟩, .inr ⟨busy, c, aside, ?_, own⟩⟩
        exact Function.update_self _ _ _
  | start c free =>
      have none : waiter ∈ W.room := listed
      rw [sound.busy free] at none
      cases none
  | take => cases listed
  | wake => exact ⟨sound.owned waiter listed, .inl listed⟩
  | wait c completion new =>
      obtain ⟨holder, waits⟩ := sound.owned waiter listed
      refine ⟨⟨holder, ?_⟩, .inl listed⟩
      have apart : holder ≠ .inr completion := by
        rintro rfl
        rw [new] at waits
        cases waits
      simpa [apart] using waits
  | unwind c one held drains =>
      have apart : waiter ≠ one := by
        rintro rfl
        exact sound.absent c [] drains waiter (by simp [held]) listed
      refine ⟨?_, .inl listed⟩
      exact (Placed.exists_mem_tail held (sound.owned waiter listed)).resolve_left
        apart

theorem Step.busy (step : Step W V) (sound : W.Sound) :
    V.draining = false → V.room = [] := by
  intro free
  cases step with
  | drop | forget => simp [sound.busy free]
  | refuse c room busy =>
      rw [show W.draining = false from free] at busy
      cases busy
  | start => cases free
  | take => rfl
  | _ => exact sound.busy free

theorem Step.nodup (step : Step W V) (sound : W.Sound) : V.room.Nodup := by
  cases step with
  | drop | forget => exact sound.nodup.filter _
  | refuse c room busy aside nodup => exact nodup sound.nodup
  | take => exact List.nodup_nil
  | _ => exact sound.nodup

/-- A call drains on with what it waits for, or nobody is registered. -/
theorem Step.drains (step : Step W V) (sound : W.Sound) {d : Nat}
    {owed : List WaiterId} (drains : V.stances d = .drains owed) :
    (∃ before, W.stances d = .drains before) ∧
        (∀ waiter ∈ V.waits (.inl d), waiter ∈ W.waits (.inl d)) ∨
      V.room = [] := by
  cases step with
  | stay => exact .inl ⟨⟨owed, drains⟩, fun _ => id⟩
  | drop completion one => exact .inl ⟨⟨owed, drains⟩, by simp⟩
  | start c free => exact .inr (sound.busy free)
  | take => exact .inr rfl
  | poll c completion one waker held idle aside =>
      have apart : d ≠ c := by
        rintro rfl
        rw [show W.stances d = .drains owed from drains] at aside
        cases aside
      exact .inl ⟨⟨owed, drains⟩, by simp [apart]⟩
  | forget c one held aside =>
      have apart : d ≠ c := by
        rintro rfl
        rw [show W.stances d = .drains owed from drains] at aside
        cases aside
      exact .inl ⟨⟨owed, drains⟩, by simp [apart]⟩
  | wake c one rest before =>
      by_cases same : d = c
      · subst same
        exact .inl ⟨⟨_, before⟩, fun _ => id⟩
      · exact .inl ⟨⟨owed, by simpa [same] using drains⟩, fun _ => id⟩
  | rest c | refuse c | wait c | park c | unwind c =>
      have apart : d ≠ c := by
        rintro rfl
        simp at drains
      exact .inl ⟨⟨owed, by simpa [apart] using drains⟩, by simp [apart]⟩

theorem Step.absent (step : Step W V) (sound : W.Sound) :
    ∀ c owed, V.stances c = .drains owed →
      ∀ waiter ∈ V.waits (.inl c), waiter ∉ V.room := by
  intro d owed drains waiter waits listed
  rcases step.drains sound drains with ⟨⟨before, drained⟩, waited⟩ | none
  · obtain ⟨-, old | ⟨-, c, aside, -, own⟩⟩ := step.registered sound listed
    · exact sound.absent d before drained waiter (waited waiter waits) old
    · have same : Sum.inl d = Sum.inl c :=
        sound.placed.apart (waited waiter waits) own rfl
      cases same
      rw [drained] at aside
      cases aside
  · rw [none] at listed
    cases listed

/-- A registration is kept or taken over, unless its owner withdraws it. -/
theorem Step.listed (step : Step W V) (sound : W.Sound) {waiter : WaiterId}
    (listed : waiter ∈ W.room) (kept : ∃ holder, waiter ∈ V.waits holder) :
    V.Served waiter := by
  obtain ⟨holder, waits⟩ := kept
  cases step with
  | drop completion one held | forget c one held =>
      have apart : waiter ≠ one := sound.placed.tail_apart held waits
      exact .inl (List.mem_filter.mpr ⟨listed, by simpa using apart⟩)
  | refuse c room busy aside nodup keeps =>
      exact .inl ((keeps waiter).mpr (.inl listed))
  | take c =>
      exact .inr (.inr ⟨c, W.room, Function.update_self _ _ _, listed⟩)
  | _ => exact .inl listed

/-- A waiter that was woken stays so until it is polled again. -/
theorem Step.woken (step : Step W V) (sound : W.Sound) {waiter : WaiterId}
    (woken : (W.waiters waiter).woken = (W.waiters waiter).polls)
    (polls : (V.waiters waiter).polls = (W.waiters waiter).polls) :
    (V.waiters waiter).woken = (V.waiters waiter).polls := by
  cases step with
  | poll c completion one waker =>
      have apart : waiter ≠ one := by
        rintro rfl
        simp at polls
      simpa [apart] using woken
  | wake c one owed =>
      by_cases same : waiter = one
      · subst same
        simpa using (sound.honest waiter).wake_woken
      · simpa [same] using woken
  | _ => exact woken

/-- Who is to be woken is woken, or still to be woken. -/
theorem Step.owed (step : Step W V) (sound : W.Sound) {waiter : WaiterId}
    {d : Nat} {owed : List WaiterId} (drains : W.stances d = .drains owed)
    (among : waiter ∈ owed) : V.Served waiter := by
  have other : ∀ {c : Nat} {stance : Stance}, d ≠ c →
      Function.update W.stances c stance d = .drains owed := by
    intro c stance apart
    rwa [Function.update_of_ne apart]
  have busy : ∀ {c : Nat}, (∀ rest, W.stances c = .drains rest → rest = []) →
      d ≠ c := by
    rintro c none rfl
    rw [none owed drains] at among
    cases among
  cases step with
  | stay | drop | poll | forget => exact .inr (.inr ⟨d, owed, drains, among⟩)
  | rest c paid => exact .inr (.inr ⟨d, owed, other (busy paid), among⟩)
  | refuse c room free aside | start c free aside | wait c new unheld aside
  | park c completion one held empty aside | unwind c one held aside
  | take c draining aside =>
      have apart : d ≠ c := busy fun rest at_rest => by
        cases aside.symm.trans at_rest
        all_goals rfl
      exact .inr (.inr ⟨d, owed, other apart, among⟩)
  | wake c one rest before =>
      by_cases same : d = c
      · subst same
        cases before.symm.trans drains
        rcases List.mem_cons.mp among with rfl | later
        · refine .inr (.inl ?_)
          simpa using (sound.honest waiter).wake_woken
        · exact .inr (.inr ⟨d, rest, Function.update_self _ _ _, later⟩)
      · exact .inr (.inr ⟨d, owed, other same, among⟩)

/-- Who was served stays served until it is polled again. -/
theorem Step.served (step : Step W V) (sound : W.Sound) {waiter : WaiterId}
    (served : W.Served waiter) (kept : ∃ holder, waiter ∈ V.waits holder)
    (polls : (V.waiters waiter).polls = (W.waiters waiter).polls) :
    V.Served waiter := by
  rcases served with listed | woken | ⟨d, owed, drains, among⟩
  · exact step.listed sound listed kept
  · exact .inr (.inl (step.woken sound woken polls))
  · exact step.owed sound drains among

/-- A completion that waits for room waited before, was put back by a poll, or
is new. -/
theorem Step.held (step : Step W V) (sound : W.Sound) {completion : Nat}
    {waiter : WaiterId} (held : waiter ∈ V.waits (.inr completion)) :
    (V.waiters waiter).polls = 0 ∨
      (V.waiters waiter).polls = (W.waiters waiter).polls ∧
        (waiter ∈ W.waits (.inr completion) ∨ ∃ c, W.stances c = .refused ∧
          waiter ∈ W.waits (.inl c)) := by
  cases step with
  | poll c other one waker before idle aside =>
      have parts : W.waits (.inr other) = [one] ++ [] := by simpa using before
      dsimp only at held
      rcases (Placed.mem_transfer (by simp) parts idle).mp held with
        ⟨old, stays⟩ | ⟨impossible, -⟩
      · have apart : waiter ≠ one := by
          rintro rfl
          have at_other : waiter ∈ W.waits (.inr other) := by simp [before]
          cases stays (sound.placed.apart old at_other rfl)
        exact .inr ⟨by simp [apart], .inl old⟩
      · cases impossible
  | wake c one owed =>
      refine .inr ⟨?_, .inl held⟩
      by_cases same : waiter = one
      · subst same
        simp
      · simp [same]
  | drop other one before | forget c one before | unwind c one before =>
      exact .inr ⟨rfl, .inl (Placed.mem_tail before held)⟩
  | wait c other new refused =>
      by_cases same : completion = other
      · subst same
        have fresh : waiter = W.nextWaiter := by simpa using held
        subst fresh
        exact .inl (sound.unpolled _ (Nat.le_refl _))
      · exact .inr ⟨rfl, .inl (by simpa [same] using held)⟩
  | park c other one before empty refused =>
      by_cases same : completion = other
      · subst same
        have put : waiter = one := by simpa using held
        subst put
        exact .inr ⟨rfl, .inr ⟨c, refused, by simp [before]⟩⟩
      · exact .inr ⟨rfl, .inl (by simpa [same] using held)⟩
  | _ => exact .inr ⟨rfl, .inl held⟩

theorem Step.waiting (step : Step W V) (sound : W.Sound) :
    ∀ completion, ∀ waiter ∈ V.waits (.inr completion),
      0 < (V.waiters waiter).polls → V.Served waiter := by
  intro completion waiter held polled
  rcases step.held sound held with none | ⟨polls, before⟩
  · rw [none] at polled
    cases polled
  · have kept : ∃ holder, waiter ∈ V.waits holder := ⟨_, held⟩
    rw [polls] at polled
    rcases before with same | ⟨c, refused, offered⟩
    · exact step.served sound (sound.waiting completion waiter same polled) kept
        polls
    · exact step.served sound (sound.refused c refused waiter offered) kept
        polls

theorem Step.refused (step : Step W V) (sound : W.Sound) :
    ∀ c, V.stances c = .refused → ∀ waiter ∈ V.waits (.inl c),
      V.Served waiter := by
  intro d refused waiter offered
  have kept : ∃ holder, waiter ∈ V.waits holder := ⟨_, offered⟩
  have stays : W.stances d = .refused → waiter ∈ W.waits (.inl d) →
      (V.waiters waiter).polls = (W.waiters waiter).polls →
        V.Served waiter := fun before waits polls =>
    step.served sound (sound.refused d before waiter waits) kept polls
  cases step with
  | refuse c room busy aside nodup keeps =>
      by_cases same : d = c
      · subst same
        exact .inl ((keeps waiter).mpr (.inr offered))
      · exact stays (by simpa [same] using refused) offered rfl
  | poll c completion one waker held idle aside =>
      have apart : d ≠ c := by
        rintro rfl
        rw [show W.stances d = .refused from refused] at aside
        cases aside
      have waits : waiter ∈ W.waits (.inl d) := by simpa [apart] using offered
      have other : waiter ≠ one := by
        rintro rfl
        have at_completion : waiter ∈ W.waits (.inr completion) := by
          simp [held]
        cases sound.placed.apart waits at_completion rfl
      exact stays refused waits (by simp [other])
  | wake c one owed =>
      have apart : d ≠ c := by
        rintro rfl
        simp at refused
      refine stays (by simpa [apart] using refused) offered ?_
      by_cases same : waiter = one
      · subst same
        simp
      · simp [same]
  | stay | drop completion one =>
      exact stays refused (by simpa using offered) rfl
  | forget c one held aside =>
      exact stays refused (Placed.mem_tail held offered) rfl
  | rest c | start c | take c =>
      have apart : d ≠ c := by
        rintro rfl
        simp at refused
      exact stays (by simpa [apart] using refused) offered rfl
  | wait c | park c | unwind c =>
      have apart : d ≠ c := by
        rintro rfl
        simp at refused
      exact stays (by simpa [apart] using refused)
        (by simpa [apart] using offered) rfl

theorem Step.sound (step : Step W V) (sound : W.Sound) : V.Sound where
  honest := step.honest sound.honest
  placed := step.placed sound
  fresh := step.fresh sound
  unpolled := step.unpolled sound
  busy := step.busy sound
  nodup := step.nodup sound
  owned := fun _ listed => (step.registered sound listed).1
  absent := step.absent sound
  waiting := step.waiting sound
  refused := step.refused sound

end Ward

namespace State

variable {s t : State M E N} {c completion : Nat} {frame : Frame E}
  {value : Completion E}

/-- The room list as one lock after another finds it. -/
def ward (s : State M E N) : Ward where
  room := s.queue.room
  draining := s.queue.draining
  waiters := s.waiters
  nextWaiter := s.nextWaiter
  waits := Sum.elim (Frame.waits ∘ s.frames) (Completion.waits ∘ s.completions)
  stances := Frame.stance ∘ s.frames

theorem ward_put_any (s : State M E N) :
    (s.put c frame).ward =
      { s.ward with
        waits := Function.update s.ward.waits (.inl c) frame.waits
        stances := Function.update s.ward.stances c frame.stance } := by
  simp only [ward, put, Function.comp_update, Sum.elim_update_left]

theorem ward_completion (s : State M E N) :
    ({ s with completions := Function.update s.completions completion value } :
      State M E N).ward =
      { s.ward with
        waits := Function.update s.ward.waits (.inr completion)
          value.waits } := by
  simp only [ward, Function.comp_update, Sum.elim_update_right]

/-- A call goes on and waits for what it waited for. -/
theorem ward_put (s : State M E N) (waits : frame.waits = (s.frames c).waits) :
    (s.put c frame).ward =
      { s.ward with
        stances := Function.update s.ward.stances c frame.stance } := by
  have same : Function.update s.ward.waits (.inl c) frame.waits =
      s.ward.waits := by
    rw [waits]
    exact Function.update_eq_self (Sum.inl c) s.ward.waits
  rw [ward_put_any, same]

/-- A call goes on and does nothing about the room list. -/
theorem ward_put_same (s : State M E N)
    (waits : frame.waits = (s.frames c).waits)
    (stance : frame.stance = (s.frames c).stance) :
    (s.put c frame).ward = s.ward := by
  have same : Function.update s.ward.stances c frame.stance =
      s.ward.stances := by
    rw [stance]
    exact Function.update_eq_self c s.ward.stances
  rw [ward_put s waits, same]

/-- A completion changes and waits for what it waited for. -/
theorem ward_completion_same (s : State M E N) (completion : Nat)
    (value : Completion E)
    (waits : value.waits = (s.completions completion).waits) :
    ({ s with completions := Function.update s.completions completion value } :
      State M E N).ward = s.ward := by
  have same : Function.update s.ward.waits (.inr completion) value.waits =
      s.ward.waits := by
    rw [waits]
    exact Function.update_eq_self (Sum.inr completion) s.ward.waits
  rw [ward_completion, same]

end State

/-- The run of a machine whose wakers return: a guard acts only when its own
step panicked, or when the thread was unwinding before its drain ran. -/
def WakersReturn (s : State M E N) (label : Label) : Prop :=
  label.action = .guardActs →
    ∃ drain, s.frames label.caller = .draining drain .dropping

section Registration

variable {queue : FifoQueue E N} {waiter : Option WaiterId}

theorem FifoQueue.register_nodup (nodup : queue.room.Nodup) :
    (queue.register waiter).room.Nodup := by
  cases waiter with
  | none => exact nodup
  | some waiter =>
      by_cases listed : waiter ∈ queue.room
      · simpa [FifoQueue.register, listed] using nodup
      · simpa [FifoQueue.register, listed, List.nodup_append] using
          ⟨nodup, fun other member same => listed (same ▸ member)⟩

theorem FifoQueue.mem_register {other : WaiterId} :
    other ∈ (queue.register waiter).room ↔
      other ∈ queue.room ∨ other ∈ waiter.toList := by
  cases waiter with
  | none => simp [FifoQueue.register]
  | some waiter =>
      by_cases listed : waiter ∈ queue.room
      · simp only [FifoQueue.register, listed, if_true, Option.toList_some,
          List.mem_singleton]
        constructor
        · exact .inl
        · rintro (old | rfl)
          · exact old
          · exact listed
      · simp [FifoQueue.register, listed]

end Registration

section Simulation

variable {s t : State M E N}

/-- The critical section of `offer` as the room list sees it. -/
private theorem offer_ward (fits : N ≤ usizeMax) (ring : s.RingOk) {c : Nat}
    {caller : Caller} {job : Job E} {queue : FifoQueue E N}
    {outcome : OfferOutcome E} (here : s.frames c = .offering caller job)
    (locked : s.queue.offer job s.nextTicket caller.waiter =
      (queue, outcome)) :
    Ward.Step s.ward
      (({ s with queue := queue } : State M E N).afterOffer c caller job
        outcome).ward := by
  have spec := FifoQueue.offer_spec fits ring job s.nextTicket caller.waiter
  rw [locked] at spec
  have aside : s.ward.stances c = .aside := by
    simp [State.ward, here, Frame.stance]
  have waits : (s.frames c).waits = caller.waiter.toList := by
    rw [here]
    rfl
  have found : s.ward.waits (.inl c) = caller.waiter.toList := waits
  cases spec with
  | terminated closed =>
      rw [State.afterOffer, State.ward_put_same _ (by exact waits.symm)
        (by exact aside.symm)]
      exact .stay
  | queued opened busy wf entries draining terminated room =>
      rw [State.afterOffer, State.ward_put_same _ (by exact waits.symm)
        (by exact aside.symm)]
      have same : ({ s with queue := queue } : State M E N).ward = s.ward := by
        have draining : queue.draining = true := draining
        have room : queue.room = s.queue.room := room
        simp only [State.ward, room, draining, busy]
      exact same ▸ .stay
  | full opened busy atCapacity registered =>
      have registered : queue = s.queue.register caller.waiter := registered
      subst registered
      have step := Ward.Step.refuse (W := s.ward) c
        (s.queue.register caller.waiter).room busy aside
        FifoQueue.register_nodup fun other => by
          rw [found]
          exact FifoQueue.mem_register
      rw [State.afterOffer, State.ward_put _ (by exact waits.symm)]
      simp only [State.ward, FifoQueue.register_draining] at step ⊢
      exact step
  | drainOlder opened free front wf entries draining terminated room =>
      have step := Ward.Step.start (W := s.ward) c free aside
      have draining : queue.draining = true := draining
      have room : queue.room = s.queue.room := room
      rw [State.afterOffer, State.ward_put _ (by exact waits.symm)]
      simp only [State.ward, State.take, State.issue, State.enter, room,
        draining] at step ⊢
      exact step
  | drainOwn opened free empty =>
      rw [State.afterOffer, State.ward_put _ (by exact waits.symm)]
      exact .start c free aside

/-- The critical section of the drain loop takes the room list. -/
private theorem loop_ward (fits : N ≤ usizeMax) (ring : s.RingOk) {c : Nat}
    {drain : Drain E} {terminated : Bool} {queue : FifoQueue E N}
    {next : Option (Job E × TicketId)} {room : List WaiterId}
    (here : s.frames c = .draining drain (.looping terminated))
    (locked : s.queue.drainNext terminated = (queue, next, room)) :
    Ward.Step s.ward
      (({ s with queue := queue } : State M E N).afterLoop c drain terminated
        room next).ward := by
  have spec := FifoQueue.drainNext_spec fits ring terminated
  rw [locked] at spec
  have drains : s.ward.stances c = .drains [] := by
    simp [State.ward, here, Frame.stance, Phase.owed]
  have waits : drain.caller.waiter.toList = (s.frames c).waits := by
    rw [here]
    rfl
  have step := Ward.Step.take c queue.draining drains
  have taken : queue.room = [] ∧ room = s.queue.room := by
    cases spec with
    | next front wf draining closed cleared => exact ⟨cleared, rfl⟩
    | done empty wf entries draining closed cleared => exact ⟨cleared, rfl⟩
  obtain ⟨cleared, rfl⟩ := taken
  cases next <;>
  · rw [State.afterLoop, State.ward_put _ (by exact waits)]
    simp only [State.ward, State.take, cleared] at step ⊢
    exact step

/-- A call that owes no wake-up ends or returns. -/
private theorem rest_ward {c : Nat} {frame : Frame E}
    (waits : frame.waits = (s.frames c).waits)
    (stance : frame.stance = .aside)
    (paid : (s.frames c).owed = []) :
    Ward.Step s.ward (s.put c frame).ward := by
  rw [State.ward_put s waits, stance]
  refine .rest c fun owed drains => ?_
  have at_frame : (s.frames c).stance = .drains owed := drains
  cases shape : s.frames c with
  | draining drain phase =>
      rw [shape] at at_frame paid
      cases at_frame
      exact paid
  | offered caller job result =>
      rw [shape] at at_frame
      cases result <;> cases at_frame
  | _ =>
      rw [shape] at at_frame
      cases at_frame

/-- Waking the next waiter of a taken room list. -/
private theorem wake_ward {c : Nat} {drain : Drain E} {phase after : Phase E}
    {waiter : WaiterId} {owed : List WaiterId}
    (here : s.frames c = .draining drain phase)
    (before : phase.owed = waiter :: owed) (rest : after.owed = owed) :
    Ward.Step s.ward
      ((s.wake waiter).put c (.draining drain after)).ward := by
  have drains : s.ward.stances c = .drains (waiter :: owed) := by
    simp [State.ward, here, Frame.stance, before]
  have step := Ward.Step.wake c waiter owed drains
  rw [State.ward_put _ (by simp [State.wake, here, Frame.waits])]
  simp only [Frame.stance, rest]
  exact step

/-- A call that is through with its waiter withdraws the registration. -/
private theorem forget_ward {c completion waiter : Nat} {waker : Waker}
    {job : Job E} {result : OfferResult} {frame : Frame E}
    (here : s.frames c =
      .offered (.poll completion waiter waker) job result)
    (admitted : result ≠ .full) (waits : frame.waits = [])
    (aside : frame.stance = .aside) :
    Ward.Step s.ward
      (({ s with queue := s.queue.forget waiter } : State M E N).put c
        frame).ward := by
  have before : s.ward.stances c = .aside := by
    cases result with
    | full => exact absurd rfl admitted
    | _ => simp [State.ward, here, Frame.stance]
  have held : s.ward.waits (.inl c) = [waiter] := by
    simp [State.ward, here, Frame.waits, Caller.waiter]
  have step := Ward.Step.forget c waiter held before
  have same : Function.update s.ward.stances c frame.stance =
      s.ward.stances := by
    rw [aside, ← before]
    exact Function.update_eq_self c s.ward.stances
  rw [State.ward_put_any, waits]
  simp only [State.ward, FifoQueue.forget] at step same ⊢
  rw [same]
  exact step

/-- A submission that did not find the queue full returns a completion that
does not wait for room. -/
private theorem return_ward {c completion : Nat} {caller : Caller} {job : Job E}
    {result : OfferResult} {wait : FifoWait E}
    (here : s.frames c = .offered caller job result)
    (new : caller = .submit ∨ caller = .trySubmit)
    (free : s.completions completion = .free)
    (waits : (Completion.held wait).waits = []) :
    Ward.Step s.ward ((s.hold completion wait).put c .idle).ward := by
  have none : caller.waiter.toList = [] := by
    rcases new with rfl | rfl <;> rfl
  have same := State.ward_completion_same s completion (.held wait)
    (by rw [free]; exact waits)
  have rested : Ward.Step (s.hold completion wait).ward
      ((s.hold completion wait).put c .idle).ward :=
    rest_ward (by rw [State.hold, here]; exact none.symm) rfl
      (by rw [State.hold, here]; rfl)
  rwa [State.hold, same] at rested

/-- Every step of a caller is a step of the room list. -/
theorem Step.ward {label : Label} (fits : N ≤ usizeMax)
    (step : Step machine s label t) (met : WakersReturn s label)
    (ring : s.RingOk) (lent : s.Lent) : Ward.Step s.ward t.ward := by
  cases step with
  | submit event here | trySubmit event here =>
      rw [State.ward_put_same _ (by simp [here]; rfl) (by simp [here]; rfl)]
      exact .stay
  | @pollRoom c completion waiter job waker here held =>
      have aside : s.ward.stances c = .aside := by
        simp [State.ward, here, Frame.stance]
      have step := Ward.Step.poll (W := s.ward) c completion waiter waker
        (by simp [State.ward, held, Completion.waits])
        (by simp [State.ward, here, Frame.waits]) aside
      have same : Function.update s.ward.stances c .aside = s.ward.stances := by
        rw [← aside]
        exact Function.update_eq_self c s.ward.stances
      rw [State.ward_put_any]
      simp only [State.ward, Function.comp_update,
        Sum.elim_update_right] at step same ⊢
      rw [show Frame.stance (.offering (.poll completion waiter waker) job) =
        .aside from rfl, same]
      exact step
  | pollQueued | pollDone => exact .stay
  | @dropRoom c completion waiter job here held =>
      have step := Ward.Step.drop (W := s.ward) completion waiter
        (by simp [State.ward, held, Completion.waits])
      simp only [State.ward, FifoQueue.forget, Function.comp_update,
        Sum.elim_update_right] at step ⊢
      exact step
  | dropQueued here held | dropDone here held =>
      rw [State.ward_completion_same s _ _ (by rw [held]; rfl)]
      exact .stay
  | offer here locked => exact offer_ward fits ring here locked
  | loop here locked => exact loop_ward fits ring here locked
  | skip here | beginStep here | stepReturns here | stepPanics here
  | runNext here | finish here | guardReads here | stranded here
  | guardActs here =>
      rw [State.ward_put_same _ (by rw [here]; rfl) (by rw [here]; rfl)]
      exact .stay
  | resolve here | pendingDrop here | strand here =>
      rw [State.ward_put_same _ (by simp only [State.resolve, here]; rfl)
        (by simp only [State.resolve, here]; rfl)]
      exact .stay
  | wakeNext here | wakeLast here | rouse here =>
      exact wake_ward here rfl rfl
  | @guardReturns c drain here =>
      refine rest_ward (by rw [here]; rfl) ?_ (by rw [here]; rfl)
      unfold Drain.result
      cases drain.own <;> rfl
  | wakerPanics here | lastWakerPanics here =>
      obtain ⟨drain, dropping⟩ := met rfl
      cases here.symm.trans dropping
  | @guardHands c drain cause terminated queue stranded room here locked =>
      have spec := FifoQueue.unwind_spec fits ring terminated
      have registered := FifoQueue.unwind_room s.queue terminated
      rw [locked] at spec registered
      have cleared : queue.room = [] := spec.room
      have registered : room = s.queue.room := registered
      subst registered
      have step := Ward.Step.take (W := s.ward) c queue.draining
        (by simp [State.ward, here, Frame.stance, Phase.owed])
      rw [State.ward_put _ (by simp only [State.take, here]; rfl)]
      simp only [State.ward, State.take, cleared] at step ⊢
      exact step
  | @rousedReturning c drain handover here returning =>
      refine rest_ward (by rw [here]; rfl) ?_ (by rw [here]; rfl)
      unfold Drain.result
      cases drain.own <;> rfl
  | @unwound c drain handover here unwinding new =>
      refine rest_ward ?_ rfl (by rw [here]; rfl)
      rw [here]
      cases drain with
      | mk caller =>
          cases caller with
          | poll completion waiter waker =>
              exact absurd rfl (new completion waiter waker)
          | submit | trySubmit => rfl
  | @unwoundPoll c completion waiter waker drain handover here unwinding
      polled =>
      have borrowed : s.completions completion = .borrowed :=
        lent.borrowed (c := c) (by rw [here, Frame.polls, polled]; rfl)
      have same := State.ward_completion_same s completion (.held (.done false))
        (by rw [borrowed]; rfl)
      have step := Ward.Step.unwind (W := s.ward) c waiter
        (by simp [State.ward, here, Frame.waits, polled, Caller.waiter])
        (by simp [State.ward, here, Frame.stance, Phase.owed])
      rw [State.ward_put_any, State.hold, same]
      exact step
  | returnDone here new free => exact return_ward here new free rfl
  | returnQueued here new free => exact return_ward here new free rfl
  | @returnRoom c completion job here free =>
      have step := Ward.Step.wait (W := s.ward) c completion
        (by simp [State.ward, free, Completion.waits])
        (by simp [State.ward, here, Frame.stance])
      rw [State.ward_put _ (by simp [State.hold, here]; rfl)]
      simp only [State.ward, State.hold, Function.comp_update,
        Sum.elim_update_right] at step ⊢
      exact step
  | returnFull here =>
      exact rest_ward (by rw [here]; rfl) rfl (by rw [here]; rfl)
  | @polledRoom c completion waiter waker job here =>
      have borrowed : s.completions completion = .borrowed :=
        lent.borrowed (c := c) (by rw [here]; rfl)
      have step := Ward.Step.park (W := s.ward) c completion waiter
        (by simp [State.ward, here, Frame.waits, Caller.waiter])
        (by simp [State.ward, borrowed, Completion.waits])
        (by simp [State.ward, here, Frame.stance])
      rw [Function.update_comm (by simp)] at step
      rw [State.ward_put_any, State.hold, State.ward_completion]
      exact step
  | @polledDone c completion waiter waker job accepted here =>
      have borrowed : s.completions completion = .borrowed :=
        lent.borrowed (c := c) (by rw [here]; rfl)
      rw [← State.ward_completion_same s completion (.held (.done accepted))
        (by rw [borrowed]; rfl)]
      exact forget_ward here (by simp) rfl rfl
  | polledQueued here =>
      exact forget_ward here (by simp) rfl rfl
  | @pollTicket c completion ticket waker here =>
      have borrowed : s.completions completion = .borrowed :=
        lent.borrowed (c := c) (by rw [here]; rfl)
      rw [State.ward_put_same _ (by simp [State.hold, here]; rfl)
        (by simp [State.hold, here]; rfl), State.hold,
        State.ward_completion_same _ _ _ (by simp [borrowed]; rfl)]
      exact .stay

end Simulation

/-- What holds in every state of a run whose wakers return. -/
structure State.Attended (s : State M E N) : Prop where
  ring : s.RingOk
  lent : s.Lent
  sound : s.ward.Sound

theorem Step.attended {label : Label} {s t : State M E N} (fits : N ≤ usizeMax)
    (step : Step machine s label t) (met : WakersReturn s label)
    (attended : s.Attended) : t.Attended where
  ring := (step.refines fits attended.ring).1
  lent := step.lent attended.lent
  sound := (step.ward fits met attended.ring attended.lent).sound
    attended.sound

theorem State.cell_attended (machine : SyncMachineStep M E) (initial : M) :
    (State.cell machine initial : State M E N).Attended where
  ring := State.cell_ringOk initial
  lent := ⟨by simp [Frame.polls], by simp [Frame.polls]⟩
  sound :=
    { honest := fun _ => ⟨fun _ => rfl, Nat.le_refl _⟩
      placed := Placed.empty fun holder => by cases holder <;> rfl
      fresh := by rintro (c | completion) waiter ⟨⟩
      unpolled := fun _ _ => rfl
      busy := fun _ => rfl
      nodup := List.nodup_nil
      owned := by rintro waiter ⟨⟩
      absent := by rintro c owed ⟨⟩
      waiting := by rintro completion waiter ⟨⟩
      refused := by rintro c ⟨⟩ }

/-- A run whose wakers return keeps the invariant. -/
theorem TraceWhere.attended {initial : M} {s : State M E N}
    {labels : List Label} (fits : N ≤ usizeMax)
    (run : TraceWhere (Step machine) WakersReturn
      (State.cell machine initial) labels s) : s.Attended :=
  Trace.invariant (fun one => one.1.attended fits one.2) run
    (State.cell_attended machine initial)

section NoLostWakeup

variable {s : State M E N}

theorem State.ward_waits_completion {completion : Nat} {waiter : WaiterId}
    (waits : waiter ∈ s.ward.waits (.inr completion)) :
    ∃ job, s.completions completion = .held (.room job waiter) := by
  have inside : waiter ∈ (s.completions completion).waits := waits
  cases shape : s.completions completion with
  | held wait =>
      rw [shape] at inside
      cases wait with
      | room job one =>
          cases List.mem_singleton.mp inside
          exact ⟨job, rfl⟩
      | done | queued => cases inside
  | free | borrowed | dropped =>
      rw [shape] at inside
      cases inside

theorem State.ward_waits_held {completion : Nat} {job : Job E}
    {waiter : WaiterId}
    (held : s.completions completion = .held (.room job waiter)) :
    waiter ∈ s.ward.waits (.inr completion) := by
  simp [State.ward, held, Completion.waits]

theorem State.owed_of_drains {c : Nat} {owed : List WaiterId}
    (drains : s.ward.stances c = .drains owed) : (s.frames c).owed = owed := by
  have stance : (s.frames c).stance = .drains owed := drains
  cases shape : s.frames c with
  | draining drain phase =>
      rw [shape] at stance
      cases stance
      rfl
  | offered caller job result =>
      rw [shape] at stance
      cases result <;> cases stance
  | idle | offering | polling =>
      rw [shape] at stance
      cases stance

end NoLostWakeup

/-- Unless a waker panics, a completion that waits for room and has been polled
is registered while somebody drains, or the waker of its latest poll has been
woken since that poll began, or a drain or a guard that took its registration
has yet to wake it. Each waiter is registered at most once, and every
registration is the one of a completion that waits or is being polled, and of
this one only: dropping the completion withdraws it, and so does the poll that
admits the event before it returns. -/
theorem no_lost_wakeup (scheduler : FifoScheduler)
    (machine : SyncMachineStep M E) (initial : M)
    {s : State M E scheduler.N} {labels : List Label}
    (run : TraceWhere (Step machine) WakersReturn
      (State.cell machine initial) labels s) :
    (∀ completion job waiter,
      s.completions completion = .held (.room job waiter) →
      0 < (s.waiters waiter).polls →
        waiter ∈ s.queue.room ∧ s.queue.draining = true ∨
        (s.waiters waiter).woken = (s.waiters waiter).polls ∨
        ∃ c, waiter ∈ (s.frames c).owed) ∧
    s.queue.room.Nodup ∧
    (∀ waiter ∈ s.queue.room,
      (∃ completion job,
        s.completions completion = .held (.room job waiter)) ∨
      ∃ c, waiter ∈ (s.frames c).waits) ∧
    (∀ completion other job twin waiter,
      s.completions completion = .held (.room job waiter) →
      s.completions other = .held (.room twin waiter) →
        completion = other) ∧
    (∀ completion job waiter c,
      s.completions completion = .held (.room job waiter) →
        waiter ∉ (s.frames c).waits) ∧
    (∀ c completion job waiter t,
      s.completions completion = .held (.room job waiter) →
      Step machine s ⟨c, .drops completion⟩ t → waiter ∉ t.queue.room) ∧
    ∀ c completion waiter waker job result t,
      s.frames c = .offered (.poll completion waiter waker) job result →
      result ≠ .full → Step machine s ⟨c, .advances⟩ t →
        waiter ∉ t.queue.room := by
  have attended := TraceWhere.attended scheduler.fits run
  have sound := attended.sound
  refine ⟨?_, sound.nodup, ?_, ?_, ?_, ?_, ?_⟩
  · intro completion job waiter held polled
    rcases sound.waiting completion waiter (State.ward_waits_held held) polled
      with listed | woken | ⟨c, owed, drains, among⟩
    · left
      refine ⟨listed, ?_⟩
      cases busy : s.queue.draining with
      | true => rfl
      | false =>
          have empty : s.queue.room = [] := sound.busy busy
          have listed : waiter ∈ s.queue.room := listed
          rw [empty] at listed
          cases listed
    · exact .inr (.inl woken)
    · refine .inr (.inr ⟨c, ?_⟩)
      rw [State.owed_of_drains drains]
      exact among
  · intro waiter listed
    obtain ⟨holder, waits⟩ := sound.owned waiter listed
    cases holder with
    | inl c => exact .inr ⟨c, waits⟩
    | inr completion =>
        exact .inl ⟨completion, State.ward_waits_completion waits⟩
  · intro completion other job twin waiter first second
    have same := sound.placed.apart (State.ward_waits_held first)
      (State.ward_waits_held second) rfl
    exact Sum.inr.inj same
  · intro completion job waiter c held waits
    have offered : waiter ∈ s.ward.waits (.inl c) := waits
    cases sound.placed.apart (State.ward_waits_held held) offered rfl

  · intro c completion job waiter t held step
    cases step with
    | dropRoom idle here =>
        cases here.symm.trans held
        simp [FifoQueue.forget]
    | dropQueued idle here | dropDone idle here =>
        cases here.symm.trans held
  · intro c completion waiter waker job result t here admitted step
    cases step with
    | polledDone there | polledQueued there =>
        cases there.symm.trans here
        simp [FifoQueue.forget, State.put, State.hold]
    | polledRoom there =>
        cases there.symm.trans here
        exact absurd rfl admitted
    | returnDone there new =>
        cases there.symm.trans here
        simp at new
    | returnQueued there new =>
        cases there.symm.trans here
        simp at new
    | _ =>
        rename_i there
        cases there.symm.trans here

/-- Two events are queued behind a step, and the third submission waits for
room and is polled once. -/
theorem no_lost_wakeup_full :
    ∃ s : State Nat Nat 2,
      s.completions 0 = .held (.room { event := 4, serial := 3 } 0) ∧
      (s.waiters 0).polls = 1 ∧
      (0 ∈ s.queue.room ∧ s.queue.draining = true ∨
        (s.waiters 0).woken = (s.waiters 0).polls ∨
        ∃ c, 0 ∈ (s.frames c).owed) := by
  obtain ⟨labels, s, run, held, polls⟩ : ∃ labels, ∃ s : State Nat Nat 2,
      TraceWhere (Step tally) WakersReturn (State.cell tally 0) labels s ∧
        s.completions 0 = .held (.room { event := 4, serial := 3 } 0) ∧
        (s.waiters 0).polls = 1 := by
    refine ⟨_, _, Trace.nil
      |>.snoc ⟨.submit (c := 0) 1 rfl, ?_⟩
      |>.snoc ⟨.offer (c := 0) rfl rfl, ?_⟩
      |>.snoc ⟨.beginStep (c := 0) rfl rfl, ?_⟩
      |>.snoc ⟨.submit (c := 1) 2 rfl, ?_⟩
      |>.snoc ⟨.offer (c := 1) rfl rfl, ?_⟩
      |>.snoc ⟨.submit (c := 2) 3 rfl, ?_⟩
      |>.snoc ⟨.offer (c := 2) rfl rfl, ?_⟩
      |>.snoc ⟨.submit (c := 3) 4 rfl, ?_⟩
      |>.snoc ⟨.offer (c := 3) rfl rfl, ?_⟩
      |>.snoc ⟨@Step.returnRoom _ _ _ _ _ 3 0 _ rfl rfl, ?_⟩
      |>.snoc ⟨@Step.pollRoom _ _ _ _ _ 3 0 _ _ 7 rfl rfl, ?_⟩
      |>.snoc ⟨.offer (c := 3) rfl rfl, ?_⟩
      |>.snoc ⟨.polledRoom (c := 3) rfl, ?_⟩, rfl, rfl⟩ <;>
      rintro ⟨⟩
  obtain ⟨served, -⟩ := no_lost_wakeup .pair tally 0 run
  have polled : 0 < (s.waiters 0).polls := by
    rw [polls]
    exact Nat.zero_lt_one
  exact ⟨s, held, polls, served 0 _ 0 held polled⟩

/-- The drain loop takes the room list under the lock and wakes the waiters
after it: in between, a completion is neither registered nor woken. -/
theorem taken_before_woken :
    ¬ ∀ s : State Nat Nat 2, Reachable tally 0 PanicFree s →
      ∀ completion job waiter,
        s.completions completion = .held (.room job waiter) →
        0 < (s.waiters waiter).polls →
          waiter ∈ s.queue.room ∧ s.queue.draining = true ∨
          (s.waiters waiter).woken = (s.waiters waiter).polls := by
  intro claim
  have reachable := Reachable.start (N := 2) tally 0 PanicFree
    |>.step (.submit (c := 0) 1 rfl) (by simp [PanicFree])
    |>.step (.offer (c := 0) rfl rfl) (by simp [PanicFree])
    |>.step (.beginStep (c := 0) rfl rfl) (by simp [PanicFree])
    |>.step (.submit (c := 1) 1 rfl) (by simp [PanicFree])
    |>.step (.offer (c := 1) rfl rfl) (by simp [PanicFree])
    |>.step (.submit (c := 2) 1 rfl) (by simp [PanicFree])
    |>.step (.offer (c := 2) rfl rfl) (by simp [PanicFree])
    |>.step (.submit (c := 3) 1 rfl) (by simp [PanicFree])
    |>.step (.offer (c := 3) rfl rfl) (by simp [PanicFree])
    |>.step (@Step.returnRoom _ _ _ _ _ 3 0 _ rfl rfl) (by simp [PanicFree])
    |>.step (@Step.pollRoom _ _ _ _ _ 3 0 _ _ 7 rfl rfl) (by simp [PanicFree])
    |>.step (.offer (c := 3) rfl rfl) (by simp [PanicFree])
    |>.step (.polledRoom (c := 3) rfl) (by simp [PanicFree])
    |>.step (.stepReturns (c := 0) rfl ⟨rfl, rfl⟩) (by simp [PanicFree])
    |>.step (.resolve (c := 0) rfl) (by simp [PanicFree])
    |>.step (.loop (c := 0) rfl rfl) (by simp [PanicFree])
  rcases claim _ reachable 0 { event := 1, serial := 3 } 0 rfl Nat.zero_lt_one
    with ⟨⟨⟩, -⟩ | ⟨⟨⟩⟩

end SmlRs.Scheduler
