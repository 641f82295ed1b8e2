/-
Module: SmlRs.Scheduler.Turn
Purpose: The turn is never held twice, admitted jobs are stepped in the order
  of their admission, and a closed machine is never stepped again.
Trusted boundary: none
Main exports: Server.Exclusive, Server.Harmless, Server.Step.exclusive,
  Server.Orderly, Server.Step.orderly, Server.Step.closed_stays
-/
import SmlRs.Lib.Turn
import SmlRs.Scheduler.Server

namespace SmlRs.Scheduler

open Lib

variable {M E : Type*} {machine : SyncMachineStep M E}

/-- What the runs considered may contain. -/
structure Allowed where
  /-- Steps that panic. -/
  panics : Prop
  /-- Guards that act on a drain whose own steps all returned. -/
  foreign : Prop

namespace Server

variable {S T : Server M E}

/-- A caller owns the turn. -/
abbrev Owner (S : Server M E) (c : Nat) : Prop := Holds Stage.Owns S.stages c

/-- At most one caller owns the turn, and only while `draining` is set. -/
abbrev Exclusive (S : Server M E) : Prop :=
  Lib.Exclusive Stage.Owns S.stages S.draining

/-- A guard that acts on a drain whose own step did not panic finds nobody
draining. -/
def Harmless (S : Server M E) (label : Label) : Prop :=
  ∀ terminated, S.stages label.caller = some (.foreignHanding terminated) →
    S.draining = false

/-- Where the turn is held, one step moves it at most to the next owner. -/
theorem Step.exclusive {label : Label} (step : Step machine S label T)
    (harmless : S.Harmless label) (exclusive : S.Exclusive) : T.Exclusive := by
  have idle : ∀ {stage : Stage E}, ¬ stage.Owns →
      ∀ next, some stage = some next → ¬ next.Owns := by
    rintro stage gone next ⟨⟩
    exact gone
  cases step with
  | stutter | refuse | queue => exact exclusive
  | takeOlder opened free =>
      have nobody : Lib.Exclusive Stage.Owns S.stages false := free ▸ exclusive
      exact nobody.acquire
  | takeOwn opened free =>
      have nobody : Lib.Exclusive Stage.Owns S.stages false := free ▸ exclusive
      exact nobody.acquire
  | skip here => exact exclusive.keep (.inl ⟨_, here, trivial⟩)
  | beginStep here => exact exclusive.keep (.inl ⟨_, here, trivial⟩)
  | stepReturns here => exact exclusive.keep (.inl ⟨_, here, trivial⟩)
  | stepPanics here => exact exclusive.keep (.inl ⟨_, here, trivial⟩)
  | resolve here => exact exclusive.keep (.inl ⟨_, here, trivial⟩)
  | next here => exact exclusive.keep (.inl ⟨_, here, trivial⟩)
  | pendingDrop here => exact exclusive.keep (.inl ⟨_, here, trivial⟩)
  | guardReads here => exact exclusive.keep (.inl ⟨_, here, trivial⟩)
  | release here =>
      exact exclusive.release ⟨_, here, trivial⟩ (by simp) false
  | guardHands here =>
      exact exclusive.release ⟨_, here, trivial⟩ (idle id) false
  | strand here => exact exclusive.keep (.inr (idle id))
  | stranded here => exact exclusive.keep (.inr (by simp))
  | foreign => exact exclusive.keep (.inr (idle id))
  | foreignReads here => exact exclusive.keep (.inr (idle id))
  | foreignHands caller here =>
      subst caller
      have free := harmless _ here
      have nobody : Lib.Exclusive Stage.Owns S.stages false := free ▸ exclusive
      exact nobody.keep (.inr (idle id))

/-- The step is one of the runs considered. -/
structure Allows (S : Server M E) (allowed : Allowed) (label : Label) :
    Prop where
  panics : label.action = .panics → allowed.panics
  foreign : label.action = .guardActs → allowed.foreign
  harmless : S.Harmless label

/-- The machine accepts nothing any more: its start failed or it is in `X`. -/
def closed (machine : SyncMachineStep M E) (S : Server M E) : Bool :=
  !S.started || machine.isTerminated S.machine

/-- A job that was taken from the line of a closed machine, behind every job
that was stepped. -/
def Skipped (machine : SyncMachineStep M E) (S : Server M E) (job : Job E) :
    Prop :=
  S.closed machine = true ∧
    ∃ before after, S.history.taken = before ++ job :: after ∧
      S.history.stepped <+: before

/-- What holds of the line while a caller is in a stage. -/
def StageOk (machine : SyncMachineStep M E) (allowed : Allowed) (S : Server M E) :
    Stage E → Prop
  | .running job _ terminated =>
      terminated = S.closed machine ∧ S.terminated = terminated ∧
        ∃ before, S.history.taken = before ++ [job] ∧
          S.history.stepped <+: before ∧
          (terminated = false → S.history.stepped = before)
  | .stepping job _ =>
      S.closed machine = false ∧ S.terminated = false ∧
        S.history.stepped = S.history.taken ∧
        ∃ before, S.history.taken = before ++ [job] ∧
          (S.history.returned.map Prod.fst).Sublist before
  | .resolving job _ accepted terminated =>
      terminated = S.closed machine ∧
        (terminated = false →
          S.terminated = false ∧ S.history.stepped = S.history.taken) ∧
        ((job, accepted) ∈ S.history.returned ∨
          accepted = false ∧ S.Skipped machine job)
  | .looping terminated =>
      terminated = S.closed machine ∧
        (terminated = false →
          S.terminated = false ∧ S.history.stepped = S.history.taken)
  | .panicked job _ | .reading job _ =>
      allowed.panics ∧ S.started = true ∧ S.terminated = false ∧
        S.history.stepped = S.history.taken ∧ job ∈ S.history.stepped
  | .handing job _ terminated =>
      allowed.panics ∧ S.started = true ∧ S.terminated = false ∧
        S.history.stepped = S.history.taken ∧ job ∈ S.history.stepped ∧
        terminated = machine.isTerminated S.machine
  | .stranding stranded =>
      (allowed.panics ∨ allowed.foreign) ∧
        ∀ entry ∈ stranded, S.Skipped machine entry.1
  | .foreignReading => allowed.foreign
  | .foreignHanding terminated =>
      allowed.foreign ∧ (terminated = true → S.closed machine = true)

/-- Where a job's result came from. -/
inductive Verdict (machine : SyncMachineStep M E) (allowed : Allowed)
    (S : Server M E) (resolution : Resolution E) : Prop where
  | own (returned :
      (resolution.job, resolution.accepted) ∈ S.history.returned)
  | skipped (rejected : resolution.accepted = false)
      (skipped : S.Skipped machine resolution.job)
  | refused (rejected : resolution.accepted = false)
      (ticketless : resolution.ticket = none)
      (closed : S.closed machine = true)
  | panicked (rejected : resolution.accepted = false) (panics : allowed.panics)
      (stepped : resolution.job ∈ S.history.stepped)

/-- The invariant of the line. -/
structure Orderly (machine : SyncMachineStep M E) (allowed : Allowed)
    (S : Server M E) : Prop where
  exclusive : S.Exclusive
  manned : ¬ allowed.foreign → S.draining = true → ∃ c, S.Owner c
  sound : S.terminated = true → S.closed machine = true
  free : S.draining = false → S.terminated = S.closed machine ∧
    (S.terminated = false → S.history.stepped = S.history.taken) ∧
    (S.terminated = true ∨ ¬ allowed.panics → S.entries = [])
  line : S.history.admitted = S.history.taken ++ S.entries.map Prod.fst
  issued : ∀ entry ∈ S.history.issued, entry.2 ∈ S.history.admitted
  stepped : S.history.stepped <+: S.history.taken
  returned : (S.history.returned.map Prod.fst).Sublist S.history.stepped
  stages : ∀ c stage, S.stages c = some stage → S.StageOk machine allowed stage
  verdicts : ∀ resolution ∈ S.history.resolutions,
    S.Verdict machine allowed resolution


/-- The record only grows. -/
structure Grows (S T : Server M E) : Prop where
  admitted : S.history.admitted <+: T.history.admitted
  issued : S.history.issued <+: T.history.issued
  taken : S.history.taken <+: T.history.taken
  stepped : S.history.stepped <+: T.history.stepped
  returned : S.history.returned <+: T.history.returned
  resolutions : S.history.resolutions <+: T.history.resolutions

theorem Step.grows {label : Label} (step : Step machine S label T) :
    S.Grows T := by
  cases step <;> constructor <;>
    simp [move, Server.resolve, enter, issue, take, History.resolve,
      History.enter, History.issue, History.take, History.begin,
      History.complete]

section Preservation

variable {allowed : Allowed}

/-- A closed machine is not touched. -/
theorem Step.closed_stays {label : Label} (step : Step machine S label T)
    (orderly : S.Orderly machine allowed) (closed : S.closed machine = true) :
    T.machine = S.machine ∧ T.started = S.started ∧
      T.history.stepped = S.history.stepped ∧
      T.history.returned = S.history.returned := by
  cases step with
  | @beginStep c _ job ticket here =>
      have ok := (orderly.stages c _ here).1
      rw [closed] at ok
      cases ok
  | @stepReturns c _ job ticket core accepted here =>
      have ok := (orderly.stages c _ here).1
      rw [closed] at ok
      cases ok
  | @stepPanics c job ticket core here =>
      have ok := (orderly.stages c _ here).1
      rw [closed] at ok
      cases ok
  | _ => exact ⟨rfl, rfl, rfl, rfl⟩

theorem Step.closed_closed {label : Label} (step : Step machine S label T)
    (orderly : S.Orderly machine allowed) (closed : S.closed machine = true) :
    T.closed machine = true := by
  obtain ⟨core, started, -⟩ := step.closed_stays orderly closed
  rw [Server.closed, core, started]
  exact closed

theorem Step.skipped_stays {label : Label} (step : Step machine S label T)
    (orderly : S.Orderly machine allowed) {job : Job E}
    (skipped : S.Skipped machine job) : T.Skipped machine job := by
  obtain ⟨closed, before, after, taken, stepped⟩ := skipped
  obtain ⟨-, -, same, -⟩ := step.closed_stays orderly closed
  obtain ⟨more, grown⟩ := step.grows.taken
  refine ⟨step.closed_closed orderly closed, before, after ++ more, ?_, ?_⟩
  · rw [← grown, taken]
    simp
  · rw [same]
    exact stepped

theorem Step.verdict_stays {label : Label} (step : Step machine S label T)
    (orderly : S.Orderly machine allowed) {resolution : Resolution E}
    (verdict : S.Verdict machine allowed resolution) :
    T.Verdict machine allowed resolution := by
  cases verdict with
  | own returned => exact .own (step.grows.returned.subset returned)
  | skipped rejected skipped =>
      exact .skipped rejected (step.skipped_stays orderly skipped)
  | refused rejected ticketless closed =>
      exact .refused rejected ticketless (step.closed_closed orderly closed)
  | panicked rejected panics stepped =>
      exact .panicked rejected panics (step.grows.stepped.subset stepped)

/-- A stage outlives a step that changes none of what it speaks about. -/
theorem StageOk.frame {stage : Stage E} (ok : S.StageOk machine allowed stage)
    (core : T.machine = S.machine) (started : T.started = S.started)
    (terminated : T.terminated = S.terminated)
    (taken : T.history.taken = S.history.taken)
    (stepped : T.history.stepped = S.history.stepped)
    (returned : T.history.returned = S.history.returned) :
    T.StageOk machine allowed stage := by
  cases stage with
  | foreignReading => exact ok
  | _ =>
      simpa only [StageOk, Skipped, closed, core, started, terminated, taken,
        stepped, returned] using ok

/-- A stage that owns nothing outlives every step. -/
theorem StageOk.outlives {label : Label} {stage : Stage E}
    (ok : S.StageOk machine allowed stage) (step : Step machine S label T)
    (orderly : S.Orderly machine allowed) (gone : ¬ stage.Owns) :
    T.StageOk machine allowed stage := by
  cases stage with
  | stranding stranded =>
      exact ⟨ok.1, fun entry member =>
        step.skipped_stays orderly (ok.2 entry member)⟩
  | foreignReading => exact ok
  | foreignHanding terminated =>
      exact ⟨ok.1, fun closed => step.closed_closed orderly (ok.2 closed)⟩
  | _ => exact absurd trivial gone

/-- The stages after one caller moved. -/
private theorem stages_of_move {c : Nat} {next : Option (Stage E)}
    (moved : T.stages = Function.update S.stages c next)
    (here : ∀ stage, next = some stage → T.StageOk machine allowed stage)
    (others : ∀ d stage, d ≠ c → S.stages d = some stage →
      T.StageOk machine allowed stage) :
    ∀ d stage, T.stages d = some stage → T.StageOk machine allowed stage := by
  intro d stage at_stage
  rw [moved] at at_stage
  by_cases same : d = c
  · subst same
    rw [Function.update_self] at at_stage
    exact here stage at_stage
  · rw [Function.update_of_ne same] at at_stage
    exact others d stage same at_stage

/-- While a caller owns the turn, or nobody does, what the other callers' stages
say outlives every step. -/
private theorem others_outlive {label : Label} {c : Nat}
    (step : Step machine S label T) (orderly : S.Orderly machine allowed)
    (alone : S.Owner c ∨ S.draining = false) :
    ∀ d stage, d ≠ c → S.stages d = some stage →
      T.StageOk machine allowed stage := by
  intro d stage apart at_stage
  have gone : ¬ stage.Owns := by
    intro owns
    have owner : S.Owner d := ⟨stage, at_stage, owns⟩
    rcases alone with holder | free
    · exact orderly.exclusive.others holder apart owner
    · have busy := orderly.exclusive.busy owner
      rw [free] at busy
      cases busy
  exact (orderly.stages d stage at_stage).outlives step orderly gone

/-- The stages after the owner of the turn, or the caller that takes it, moved.
-/
private theorem stages_of_turn {label : Label} {c : Nat}
    {next : Option (Stage E)} (step : Step machine S label T)
    (orderly : S.Orderly machine allowed)
    (alone : S.Owner c ∨ S.draining = false)
    (moved : T.stages = Function.update S.stages c next)
    (here : ∀ stage, next = some stage → T.StageOk machine allowed stage) :
    ∀ d stage, T.stages d = some stage → T.StageOk machine allowed stage :=
  stages_of_move moved here (others_outlive step orderly alone)

/-- A guard that finds nobody draining finds nothing to do. -/
private theorem Orderly.foreign_idle {c : Nat} {terminated : Bool}
    {stranded rest : List (Job E × TicketId)}
    (orderly : S.Orderly machine allowed) (free : S.draining = false)
    (here : S.stages c = some (.foreignHanding terminated))
    (split : stranded ++ rest = S.entries)
    (kept : (S.terminated || terminated) = false → stranded = []) :
    stranded = [] ∧ rest = S.entries ∧
      (S.terminated || terminated) = S.terminated := by
  obtain ⟨same, -, empty⟩ := orderly.free free
  obtain ⟨-, read⟩ := orderly.stages c _ here
  have merged : (S.terminated || terminated) = S.terminated := by
    cases terminated with
    | false => exact Bool.or_false _
    | true => rw [same, read rfl, Bool.or_true]
  have none : stranded = [] := by
    cases closed : S.terminated with
    | false => exact kept (merged.trans closed)
    | true =>
        rw [empty (.inl closed)] at split
        exact (List.append_eq_nil_iff.mp split).1
  refine ⟨none, ?_, merged⟩
  rw [← split, none, List.nil_append]

/-- What every stage says outlives a step of the protocol. -/
private theorem Step.stages_ok {label : Label} (step : Step machine S label T)
    (allows : S.Allows allowed label) (orderly : S.Orderly machine allowed) :
    ∀ c stage, T.stages c = some stage → T.StageOk machine allowed stage := by
  have whole := step
  cases step with
  | stutter | refuse | queue =>
      intro d stage at_stage
      exact (orderly.stages d stage at_stage).frame rfl rfl rfl rfl rfl rfl
  | @takeOlder c _ job older olderTicket rest opened free front vacant =>
      refine stages_of_turn whole orderly (.inr free) rfl ?_
      rintro stage ⟨⟩
      obtain ⟨same, taken, -⟩ := orderly.free free
      exact ⟨opened ▸ same, opened, S.history.taken, rfl,
        taken opened ▸ List.prefix_rfl, fun _ => taken opened⟩
  | @takeOwn c _ job opened free empty vacant =>
      refine stages_of_turn whole orderly (.inr free) rfl ?_
      rintro stage ⟨⟩
      obtain ⟨same, taken, -⟩ := orderly.free free
      exact ⟨opened ▸ same, opened, S.history.taken, rfl,
        taken opened ▸ List.prefix_rfl, fun _ => taken opened⟩
  | @skip c _ job ticket here =>
      have ok := orderly.stages c _ here
      refine stages_of_turn whole orderly (.inl ⟨_, here, trivial⟩) rfl ?_
      rintro stage ⟨⟩
      obtain ⟨same, -, before, taken, stepped, -⟩ := ok
      exact ⟨same, by simp, .inr ⟨rfl, same.symm, before, [], taken, stepped⟩⟩
  | @beginStep c _ job ticket here unlocked =>
      have ok := orderly.stages c _ here
      refine stages_of_turn whole orderly (.inl ⟨_, here, trivial⟩) rfl ?_
      rintro stage ⟨⟩
      obtain ⟨same, opened, before, taken, -, stepped⟩ := ok
      have stepped := stepped rfl
      refine ⟨same.symm, opened, ?_, before, taken, ?_⟩
      · simp [move, History.begin, stepped, taken]
      · exact stepped ▸ orderly.returned
  | @stepReturns c _ job ticket core accepted here returns =>
      have ok := orderly.stages c _ here
      refine stages_of_turn whole orderly (.inl ⟨_, here, trivial⟩) rfl ?_
      rintro stage ⟨⟩
      obtain ⟨opened, pending, stepped, -⟩ := ok
      refine ⟨?_, fun _ => ⟨pending, stepped⟩, .inl ?_⟩
      · simp only [closed, Bool.or_eq_false_iff] at opened
        simp [closed, move, opened.1]
      · simp [move, History.complete]
  | @stepPanics c job ticket core here panicking =>
      have ok := orderly.stages c _ here
      refine stages_of_turn whole orderly (.inl ⟨_, here, trivial⟩) rfl ?_
      rintro stage ⟨⟩
      obtain ⟨opened, pending, stepped, before, taken, -⟩ := ok
      simp only [closed, Bool.or_eq_false_iff] at opened
      refine ⟨allows.panics rfl, by simpa [move] using opened.1, pending, stepped, ?_⟩
      simp [move, stepped, taken]
  | @resolve c _ job ticket accepted terminated here =>
      have ok := orderly.stages c _ here
      refine stages_of_turn whole orderly (.inl ⟨_, here, trivial⟩) rfl ?_
      rintro stage ⟨⟩
      exact ⟨ok.1, ok.2.1⟩
  | @next c _ terminated job ticket rest here front =>
      have ok := orderly.stages c _ here
      refine stages_of_turn whole orderly (.inl ⟨_, here, trivial⟩) rfl ?_
      rintro stage ⟨⟩
      exact ⟨ok.1, rfl, S.history.taken, rfl, orderly.stepped,
        fun opened => (ok.2 opened).2⟩
  | @release c _ terminated here empty =>
      exact stages_of_turn whole orderly (.inl ⟨_, here, trivial⟩) rfl
        (by simp)
  | @pendingDrop c _ job ticket here =>
      have ok := orderly.stages c _ here
      refine stages_of_turn whole orderly (.inl ⟨_, here, trivial⟩) rfl ?_
      rintro stage ⟨⟩
      exact ok
  | @guardReads c _ job ticket here =>
      obtain ⟨panics, started, opened, stepped, member⟩ :=
        orderly.stages c _ here
      refine stages_of_turn whole orderly (.inl ⟨_, here, trivial⟩) rfl ?_
      rintro stage ⟨⟩
      exact ⟨panics, started, opened, stepped, member, rfl⟩
  | @guardHands c _ job ticket terminated stranded rest here split kept =>
      obtain ⟨panics, started, opened, stepped, -, read⟩ :=
        orderly.stages c _ here
      refine stages_of_turn whole orderly (.inl ⟨_, here, trivial⟩) rfl ?_
      rintro stage ⟨⟩
      refine ⟨.inl panics, fun entry member => ?_⟩
      have closed : terminated = true := by
        by_contra opening
        have none := kept (by simp [opened, opening])
        rw [none] at member
        cases member
      obtain ⟨first, last, parts⟩ :=
        List.append_of_mem (List.mem_map_of_mem (f := Prod.fst) member)
      refine ⟨?_, S.history.taken ++ first, last, ?_, ?_⟩
      · simp [Server.closed, move, take, ← read, closed]
      · simp [move, take, History.take, parts]
      · exact stepped ▸ List.prefix_append _ _
  | @strand c _ job ticket stranded here =>
      obtain ⟨panics, skipped⟩ := orderly.stages c _ here
      refine stages_of_move (S := S) rfl ?_ ?_
      · rintro stage ⟨⟩
        exact ⟨panics, fun entry member =>
          skipped entry (List.mem_cons_of_mem _ member)⟩
      · intro d stage _ at_stage
        exact (orderly.stages d stage at_stage).frame rfl rfl rfl rfl rfl rfl
  | @stranded c _ here =>
      refine stages_of_move (S := S) rfl (by simp) ?_
      intro d stage _ at_stage
      exact (orderly.stages d stage at_stage).frame rfl rfl rfl rfl rfl rfl
  | @foreign c =>
      refine stages_of_move (S := S) rfl ?_ ?_
      · rintro stage ⟨⟩
        exact allows.foreign rfl
      · intro d stage _ at_stage
        exact (orderly.stages d stage at_stage).frame rfl rfl rfl rfl rfl rfl
  | @foreignReads c _ here =>
      have ok := orderly.stages c _ here
      refine stages_of_move (S := S) rfl ?_ ?_
      · rintro stage ⟨⟩
        refine ⟨ok, fun ended => ?_⟩
        simp [closed, move, ended]
      · intro d stage _ at_stage
        exact (orderly.stages d stage at_stage).frame rfl rfl rfl rfl rfl rfl
  | @foreignHands c _ terminated stranded rest caller here split kept =>
      obtain ⟨possible, -⟩ := orderly.stages c _ here
      obtain ⟨rfl, -, merged⟩ := orderly.foreign_idle
        (allows.harmless _ (caller ▸ here)) here split kept
      refine stages_of_move (S := S) rfl ?_ ?_
      · rintro stage ⟨⟩
        exact ⟨.inr possible, by simp⟩
      · intro d stage _ at_stage
        exact (orderly.stages d stage at_stage).frame rfl rfl merged
          (List.append_nil _) rfl rfl

private theorem Step.manned {label : Label} (step : Step machine S label T)
    (allows : S.Allows allowed label) (orderly : S.Orderly machine allowed) :
    ¬ allowed.foreign → T.draining = true → ∃ c, T.Owner c := by
  intro none busy
  cases step with
  | stutter | refuse | queue => exact orderly.manned none busy
  | takeOlder | takeOwn =>
      exact ⟨_, holds_update_self.mpr ⟨_, rfl, trivial⟩⟩
  | skip | beginStep | stepReturns | stepPanics | resolve | next | pendingDrop
  | guardReads =>
      exact held_keep (orderly.manned none busy) (.inr ⟨_, rfl, trivial⟩)
  | release | guardHands => cases busy
  | strand here | stranded here =>
      refine held_keep (orderly.manned none busy) (.inl ?_)
      rintro ⟨stage, at_stage, owns⟩
      cases here.symm.trans at_stage
      exact owns
  | foreign => exact absurd (allows.foreign rfl) none
  | @foreignReads c _ here => exact absurd (orderly.stages c _ here) none
  | foreignHands => cases busy

private theorem Step.sound {label : Label} (step : Step machine S label T)
    (allows : S.Allows allowed label) (orderly : S.Orderly machine allowed) :
    T.terminated = true → T.closed machine = true := by
  intro terminated
  cases step with
  | @stepReturns c _ job ticket core accepted here =>
      obtain ⟨-, opened, -⟩ := orderly.stages c _ here
      exact absurd (terminated.symm.trans opened) (by simp)
  | @stepPanics c job ticket core here =>
      obtain ⟨-, opened, -⟩ := orderly.stages c _ here
      exact absurd (terminated.symm.trans opened) (by simp)
  | @next c _ terminated' job ticket rest here front =>
      exact (orderly.stages c _ here).1.symm.trans terminated
  | @release c _ terminated' here empty =>
      exact (orderly.stages c _ here).1.symm.trans terminated
  | @guardHands c _ job ticket terminated' stranded rest here =>
      obtain ⟨-, -, opened, -, -, read⟩ := orderly.stages c _ here
      simp only [move, take, opened, Bool.false_or] at terminated
      simp [closed, move, take, ← read, terminated]
  | @foreignHands c _ terminated' stranded rest caller here split kept =>
      obtain ⟨-, -, merged⟩ := orderly.foreign_idle
        (allows.harmless _ (caller ▸ here)) here split kept
      exact orderly.sound (merged.symm.trans terminated)
  | _ => exact orderly.sound terminated

private theorem Step.free {label : Label} (step : Step machine S label T)
    (allows : S.Allows allowed label) (orderly : S.Orderly machine allowed) :
    T.draining = false → T.terminated = T.closed machine ∧
      (T.terminated = false → T.history.stepped = T.history.taken) ∧
      (T.terminated = true ∨ ¬ allowed.panics → T.entries = []) := by
  intro free
  -- While somebody owns the turn, `draining` is set.
  have owned : ∀ {c stage}, S.stages c = some stage → stage.Owns →
      S.draining ≠ false := by
    intro c stage here owns contrary
    have busy := orderly.exclusive.busy ⟨stage, here, owns⟩
    rw [contrary] at busy
    cases busy
  cases step with
  | stutter | refuse | strand | stranded | foreign | foreignReads =>
      exact orderly.free free
  | queue opened busy => exact absurd (free.symm.trans busy) (by simp)
  | takeOlder | takeOwn => cases free
  | skip here | beginStep here | stepReturns here | stepPanics here
  | resolve here | next here | pendingDrop here | guardReads here =>
      exact absurd free (owned here trivial)
  | @release c _ terminated here empty =>
      obtain ⟨same, taken⟩ := orderly.stages c _ here
      exact ⟨same, fun opened => (taken opened).2, fun _ => empty⟩
  | @guardHands c _ job ticket terminated stranded rest here split kept
      emptied =>
      obtain ⟨panics, started, opened, stepped, -, read⟩ :=
        orderly.stages c _ here
      refine ⟨?_, fun opened => ?_, ?_⟩
      · simp [closed, move, take, started, opened, read]
      · simp [move, take, History.take, kept opened, stepped]
      · rintro (closed | calm)
        · exact emptied closed
        · exact absurd panics calm
  | @foreignHands c _ terminated stranded rest caller here split kept =>
      have idle := allows.harmless _ (caller ▸ here)
      obtain ⟨rfl, rfl, merged⟩ := orderly.foreign_idle idle here split kept
      obtain ⟨same, taken, empty⟩ := orderly.free idle
      refine ⟨merged.trans same, fun opened => ?_, fun reason => ?_⟩
      · exact (taken (merged.symm.trans opened)).trans (List.append_nil _).symm
      · exact empty (reason.imp_left fun closed => merged.symm.trans closed)

private theorem Step.line {label : Label} (step : Step machine S label T)
    (orderly : S.Orderly machine allowed) :
    T.history.admitted = T.history.taken ++ T.entries.map Prod.fst := by
  have line := orderly.line
  cases step with
  | queue => simp [issue, enter, History.issue, History.enter, line]
  | takeOlder opened free front =>
      simp [move, take, issue, enter, History.take, History.issue,
        History.enter, line, front]
  | takeOwn opened free empty =>
      simp [move, take, enter, History.take, History.enter, line, empty]
  | next here front =>
      simp [move, take, History.take, line, front]
  | release here empty => simpa [move, empty] using line
  | guardHands here split =>
      simp [move, take, History.take, line, ← split]
  | foreignHands caller here split =>
      simp [move, take, History.take, line, ← split]
  | _ => exact line

private theorem Step.issued {label : Label} (step : Step machine S label T)
    (orderly : S.Orderly machine allowed) :
    ∀ entry ∈ T.history.issued, entry.2 ∈ T.history.admitted := by
  have joins : ∀ {job : Job E}, ∀ entry ∈
      S.history.issued ++ [(S.nextTicket, job)],
        entry.2 ∈ S.history.admitted ++ [job] := by
    intro job entry member
    rcases List.mem_append.mp member with old | new
    · exact List.mem_append_left _ (orderly.issued entry old)
    · rw [List.mem_singleton.mp new]
      exact List.mem_append_right _ List.mem_cons_self
  cases step with
  | queue => exact joins
  | takeOlder => exact joins
  | takeOwn =>
      intro entry member
      exact List.mem_append_left _ (orderly.issued entry member)
  | _ => exact orderly.issued

private theorem Step.stepped {label : Label} (step : Step machine S label T)
    (orderly : S.Orderly machine allowed) :
    T.history.stepped <+: T.history.taken := by
  cases step with
  | @beginStep c _ job ticket here =>
      obtain ⟨-, -, before, taken, -, stepped⟩ := orderly.stages c _ here
      simp [move, History.begin, stepped rfl, taken]
  | takeOlder | takeOwn | next | guardHands | foreignHands =>
      exact orderly.stepped.trans (List.prefix_append _ _)
  | _ => exact orderly.stepped

private theorem Step.returned {label : Label} (step : Step machine S label T)
    (orderly : S.Orderly machine allowed) :
    (T.history.returned.map Prod.fst).Sublist T.history.stepped := by
  cases step with
  | beginStep =>
      exact orderly.returned.trans (List.sublist_append_left _ _)
  | @stepReturns c _ job ticket core accepted here =>
      obtain ⟨-, -, stepped, before, taken, returned⟩ :=
        orderly.stages c _ here
      simpa [move, History.complete, stepped, taken] using returned
  | _ => exact orderly.returned

private theorem Step.verdicts {label : Label} (step : Step machine S label T)
    (orderly : S.Orderly machine allowed) :
    ∀ resolution ∈ T.history.resolutions,
      T.Verdict machine allowed resolution := by
  have earlier : ∀ resolution ∈ S.history.resolutions,
      T.Verdict machine allowed resolution := fun resolution member =>
    step.verdict_stays orderly (orderly.verdicts resolution member)
  have later : ∀ {resolution : Resolution E},
      T.Verdict machine allowed resolution → ∀ other ∈
        S.history.resolutions ++ [resolution],
        T.Verdict machine allowed other := by
    intro resolution verdict other member
    rcases List.mem_append.mp member with old | new
    · exact earlier other old
    · rw [List.mem_singleton.mp new]
      exact verdict
  have whole := step
  cases step with
  | refuse closed =>
      exact later (.refused rfl rfl (orderly.sound closed))
  | @resolve c _ job ticket accepted terminated here =>
      obtain ⟨-, -, own | ⟨rejected, skipped⟩⟩ := orderly.stages c _ here
      · exact later (.own own)
      · exact later (.skipped rejected (whole.skipped_stays orderly skipped))
  | @pendingDrop c _ job ticket here =>
      obtain ⟨panics, -, -, -, stepped⟩ := orderly.stages c _ here
      exact later (.panicked rfl panics stepped)
  | @strand c _ job ticket stranded here =>
      have skipped := (orderly.stages c _ here).2 _ List.mem_cons_self
      exact later (.skipped rfl (whole.skipped_stays orderly skipped))
  | _ => exact earlier

/-- One step keeps the line in order. -/
theorem Step.orderly {label : Label} (step : Step machine S label T)
    (allows : S.Allows allowed label) (orderly : S.Orderly machine allowed) :
    T.Orderly machine allowed where
  exclusive := step.exclusive allows.harmless orderly.exclusive
  manned := step.manned allows orderly
  sound := step.sound allows orderly
  free := step.free allows orderly
  line := step.line orderly
  issued := step.issued orderly
  stepped := step.stepped orderly
  returned := step.returned orderly
  stages := step.stages_ok allows orderly
  verdicts := step.verdicts orderly

/-- Where no such guard acts, nothing has to be assumed of it. -/
theorem Orderly.allows {label : Label} (orderly : S.Orderly machine allowed)
    (none : ¬ allowed.foreign) (disciplined : Disciplined label)
    (panics : label.action = .panics → allowed.panics) :
    S.Allows allowed label where
  panics := panics
  foreign := fun acts => absurd acts disciplined
  harmless := fun _ here => absurd (orderly.stages _ _ here).1 none

end Preservation

end Server

end SmlRs.Scheduler
