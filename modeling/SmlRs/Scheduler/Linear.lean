/-
Module: SmlRs.Scheduler.Linear
Purpose: Calls that overlap: both schedulers answer them as one machine does that
  handles an event at a time, in the order of admission.
Trusted boundary: none
Main exports: SyncMachineStep.Answers, SerialRuns, Server.Linear, State.Linearized,
  schedulers_linearizable
-/
import SmlRs.Scheduler.Closed
import SmlRs.Scheduler.Sequential

namespace SmlRs.Scheduler

open Lib Utility

variable {M E : Type*} {N : Nat} {machine : SyncMachineStep M E} {initial : M}

/-! ### The serial machine -/

/-- What one machine does with an event where steps may panic: an event whose step
panics is not accepted. -/
def SyncMachineStep.Answers (machine : SyncMachineStep M E) (started : Bool)
    (core : M) (event : E) (after : M) (accepted : Bool) : Prop :=
  machine.Handles started core event after accepted ∨
    (started && !machine.isTerminated core) = true ∧
      machine.panics core event after ∧ accepted = false

/-- The events one machine has had, one after the other, with their answers, and the
machine it has become. -/
inductive SerialRuns (machine : SyncMachineStep M E) (initial : M) :
    List (E × Bool) → M → Prop where
  | start : SerialRuns machine initial [] (machine.start initial).1
  | answer {calls : List (E × Bool)} {core after : M} {event : E} {accepted : Bool}
      (run : SerialRuns machine initial calls core)
      (answers : machine.Answers (machine.start initial).2 core event after
        accepted) :
      SerialRuns machine initial (calls ++ [(event, accepted)]) after

/-- A job and its answer, as the serial machine sees them. -/
def called (call : Job E × Bool) : E × Bool :=
  (call.1.event, call.2)

/-- One more job. -/
theorem SerialRuns.extend {calls : List (Job E × Bool)} {core after : M} {job : Job E}
    {accepted : Bool} (run : SerialRuns machine initial (calls.map called) core)
    (answers : machine.Answers (machine.start initial).2 core job.event after
      accepted) :
    SerialRuns machine initial ((calls ++ [(job, accepted)]).map called) after := by
  rw [List.map_append]
  exact run.answer answers

/-- A closed machine refuses what it is given, and stays as it is. -/
theorem SerialRuns.refuse {calls refused : List (Job E × Bool)} {core : M}
    (run : SerialRuns machine initial (calls.map called) core)
    (closed : refused ≠ [] →
      ((machine.start initial).2 && !machine.isTerminated core) = false)
    (rejected : ∀ call ∈ refused, call.2 = false) :
    SerialRuns machine initial ((calls ++ refused).map called) core := by
  induction refused generalizing calls with
  | nil =>
    rw [List.append_nil]
    exact run
  | cons call refused ih =>
    obtain ⟨job, accepted⟩ := call
    obtain rfl : accepted = false := rejected _ List.mem_cons_self
    have shut := closed (List.cons_ne_nil _ _)
    rw [List.append_cons]
    apply ih
    · exact run.extend (.inl (.of_closed shut))
    · exact fun _ => shut
    · exact fun call among => rejected call (List.mem_cons_of_mem _ among)

/-! ### The line -/

namespace Server

/-- Where an answer comes from: from a call of the serial machine, or from a machine
that is closed. -/
def Told (machine : SyncMachineStep M E) (S : Server M E)
    (calls : List (Job E × Bool)) (job : Job E) (accepted : Bool) : Prop :=
  (job, accepted) ∈ calls ∨ accepted = false ∧ S.closed machine = true

/-- What is known of a job while a caller is at it. -/
def StageTold (machine : SyncMachineStep M E) (S : Server M E)
    (calls : List (Job E × Bool)) : Stage E → Prop
  | .stepping job _ => S.history.stepped = calls.map Prod.fst ++ [job]
  | .resolving job _ accepted _ => S.Told machine calls job accepted
  | .panicked job _ => (job, false) ∈ calls
  | _ => True

/-- The steps so far are calls of the serial machine. -/
structure Linear (machine : SyncMachineStep M E) (initial : M)
    (calls : List (Job E × Bool)) (S : Server M E) : Prop where
  run : SerialRuns machine initial (calls.map called) S.machine
  started : S.started = (machine.start initial).2
  prior : calls.map Prod.fst <+: S.history.stepped
  idle : S.held = false → S.history.stepped = calls.map Prod.fst
  stages : ∀ c stage, S.stages c = some stage → S.StageTold machine calls stage
  told : ∀ resolution ∈ S.history.resolutions,
    S.Told machine calls resolution.job resolution.accepted

variable {S T : Server M E} {calls : List (Job E × Bool)} {c : Nat}
  {stage : Option (Stage E)}

/-- What is known stays known while nothing is stepped. -/
theorem StageTold.keep {stage : Stage E} (told : S.StageTold machine calls stage)
    (closed : S.closed machine = true → T.closed machine = true)
    (stepped : T.history.stepped = S.history.stepped) :
    T.StageTold machine calls stage := by
  cases stage with
  | stepping => exact stepped.trans told
  | resolving =>
      rcases told with among | ⟨rejected, shut⟩
      · exact .inl among
      · exact .inr ⟨rejected, closed shut⟩
  | panicked => exact told
  | _ => trivial

/-- A caller moves to another stage, and an answer may be given. -/
theorem Linear.move (linear : S.Linear machine initial calls)
    (core : T.machine = S.machine) (started : T.started = S.started)
    (held : T.held = S.held) (stepped : T.history.stepped = S.history.stepped)
    (stages : T.stages = Function.update S.stages c stage)
    (here : ∀ next, stage = some next → S.StageTold machine calls next)
    (told : ∀ resolution ∈ T.history.resolutions,
      S.Told machine calls resolution.job resolution.accepted) :
    T.Linear machine initial calls := by
  have same : T.closed machine = S.closed machine := by
    unfold Server.closed
    rw [core, started]
  constructor
  · rw [core]
    exact linear.run
  · exact started.trans linear.started
  · rw [stepped]
    exact linear.prior
  · rw [held, stepped]
    exact linear.idle
  · intro d next at_stage
    refine StageTold.keep ?_ (fun closed => same.trans closed) stepped
    rw [stages] at at_stage
    by_cases moved : d = c
    · subst moved
      rw [Function.update_self] at at_stage
      exact here next at_stage
    · rw [Function.update_of_ne moved] at at_stage
      exact linear.stages d next at_stage
  · intro resolution logged
    unfold Server.Told
    rw [same]
    exact told resolution logged

/-- An answer that is given to a job. -/
theorem told_append {resolutions : List (Resolution E)} {answer : Resolution E}
    (before : ∀ resolution ∈ resolutions,
      S.Told machine calls resolution.job resolution.accepted)
    (answered : S.Told machine calls answer.job answer.accepted) :
    ∀ resolution ∈ resolutions ++ [answer],
      S.Told machine calls resolution.job resolution.accepted := by
  intro resolution logged
  rcases List.mem_append.mp logged with earlier | last
  · exact before resolution earlier
  · rw [List.mem_singleton.mp last]
    exact answered

/-- Nobody else is at a job while a caller owns the turn. -/
theorem told_of_others {allowed : Allowed} (orderly : S.Orderly machine allowed)
    (owner : S.Owner c) {d : Nat} (apart : d ≠ c) {next : Stage E}
    (at_stage : S.stages d = some next) : T.StageTold machine calls next := by
  have gone : ¬ next.Owns := fun owns =>
    orderly.exclusive.others owner apart ⟨next, at_stage, owns⟩
  cases next with
  | stepping => exact absurd trivial gone
  | resolving => exact absurd trivial gone
  | panicked => exact absurd trivial gone
  | _ => trivial

/-- The stages behind a move of the owner of the turn. -/
theorem told_of_turn {allowed : Allowed} (orderly : S.Orderly machine allowed)
    (owner : S.Owner c) {next : Stage E}
    (stages : T.stages = Function.update S.stages c (some next))
    (here : T.StageTold machine calls next) :
    ∀ d stage, T.stages d = some stage → T.StageTold machine calls stage := by
  intro d other at_stage
  rw [stages] at at_stage
  by_cases same : d = c
  · subst same
    rw [Function.update_self] at at_stage
    cases at_stage
    exact here
  · rw [Function.update_of_ne same] at at_stage
    exact told_of_others orderly owner same at_stage

/-- A step of an open machine has ended, and its job is one more call. -/
theorem Linear.answer {allowed : Allowed} (linear : S.Linear machine initial calls)
    (orderly : S.Orderly machine allowed) {job : Job E} {ticket : Option TicketId}
    {core : M} {accepted : Bool} {next : Stage E}
    (at_step : S.stages c = some (.stepping job ticket))
    (answers : (S.started && !machine.isTerminated S.machine) = true →
      machine.Answers S.started S.machine job.event core accepted)
    (machine_eq : T.machine = core) (started : T.started = S.started)
    (stepped : T.history.stepped = S.history.stepped)
    (resolutions : T.history.resolutions = S.history.resolutions)
    (stages : T.stages = Function.update S.stages c (some next))
    (here : T.StageTold machine (calls ++ [(job, accepted)]) next) :
    T.Linear machine initial (calls ++ [(job, accepted)]) := by
  have shut : S.closed machine = false := (orderly.stages c _ at_step).1
  have opened : (S.started && !machine.isTerminated S.machine) = true := by
    unfold Server.closed at shut
    rw [Bool.or_eq_false_iff, Bool.not_eq_false'] at shut
    rw [shut.1, shut.2]
    rfl
  have owner : S.Owner c := ⟨_, at_step, trivial⟩
  constructor
  · rw [machine_eq]
    apply linear.run.extend
    rw [← linear.started]
    exact answers opened
  · exact started.trans linear.started
  · rw [stepped, linear.stages c _ at_step, List.map_append]
    exact List.prefix_rfl
  · intro _
    rw [stepped, linear.stages c _ at_step, List.map_append]
    rfl
  · exact told_of_turn orderly owner stages here
  · intro resolution logged
    rw [resolutions] at logged
    rcases linear.told resolution logged with among | ⟨_, closed⟩
    · exact .inl (List.mem_append_left _ among)
    · rw [shut] at closed
      cases closed

/-- Every step of the line is a stutter of the serial machine or one more call. -/
theorem Step.linear {label : Label} {allowed : Allowed}
    (step : Step machine S label T) (orderly : S.Orderly machine allowed)
    (linear : S.Linear machine initial calls) :
    ∃ later, T.Linear machine initial (calls ++ later) := by
  have keeps (kept : T.Linear machine initial calls) :
      ∃ later, T.Linear machine initial (calls ++ later) := by
    refine ⟨[], ?_⟩
    rw [List.append_nil]
    exact kept
  have still : S.stages = Function.update S.stages 0 (S.stages 0) :=
    (Function.update_eq_self 0 S.stages).symm
  have silent {next : Stage E} (told : S.StageTold machine calls next) :
      ∀ other, some next = some other → S.StageTold machine calls other := by
    rintro other ⟨⟩
    exact told
  cases step with
  | stutter => exact keeps linear
  | refuse closed =>
      refine keeps (linear.move rfl rfl rfl rfl still (linear.stages 0) ?_)
      exact told_append linear.told (.inr ⟨rfl, orderly.sound closed⟩)
  | queue opened busy =>
      exact keeps (linear.move rfl rfl rfl rfl still (linear.stages 0) linear.told)
  | takeOlder opened free front vacant =>
      exact keeps (linear.move rfl rfl rfl rfl rfl (silent trivial) linear.told)
  | takeOwn opened free empty vacant =>
      exact keeps (linear.move rfl rfl rfl rfl rfl (silent trivial) linear.told)
  | skip at_run =>
      have shut := (orderly.stages _ _ at_run).1
      exact keeps (linear.move rfl rfl rfl rfl rfl
        (silent (.inr ⟨rfl, shut.symm⟩)) linear.told)
  | @beginStep c label job ticket at_run unlocked =>
      have owner : S.Owner c := ⟨_, at_run, trivial⟩
      refine keeps ⟨linear.run, linear.started, ?_, fun locked => ?_, ?_, linear.told⟩
      · exact linear.prior.trans (List.prefix_append _ _)
      · cases locked
      · refine told_of_turn orderly owner rfl ?_
        show S.history.stepped ++ [job] = calls.map Prod.fst ++ [job]
        rw [linear.idle unlocked]
  | @stepReturns c label job ticket core accepted at_step returns =>
      refine ⟨[(job, accepted)], linear.answer orderly at_step ?_ rfl rfl rfl rfl rfl
        (.inl (List.mem_append_right _ List.mem_cons_self))⟩
      exact fun opened => .inl (.of_open opened returns)
  | @stepPanics c job ticket core at_step panics =>
      refine ⟨[(job, false)], linear.answer orderly at_step ?_ rfl rfl rfl rfl rfl
        (List.mem_append_right _ List.mem_cons_self)⟩
      exact fun opened => .inr ⟨opened, panics, rfl⟩
  | @resolve c label job ticket accepted terminated at_resolve =>
      refine keeps (linear.move rfl rfl rfl rfl rfl (silent trivial) ?_)
      exact told_append linear.told (linear.stages c _ at_resolve)
  | next at_loop front =>
      exact keeps (linear.move rfl rfl rfl rfl rfl (silent trivial) linear.told)
  | release at_loop empty =>
      exact keeps (linear.move rfl rfl rfl rfl rfl nofun linear.told)
  | @pendingDrop c label job ticket at_panic =>
      refine keeps (linear.move rfl rfl rfl rfl rfl (silent trivial) ?_)
      exact told_append linear.told (.inl (linear.stages c _ at_panic))
  | guardReads at_guard =>
      exact keeps (linear.move rfl rfl rfl rfl rfl (silent trivial) linear.told)
  | guardHands at_guard split kept emptied =>
      exact keeps (linear.move rfl rfl rfl rfl rfl (silent trivial) linear.told)
  | @strand c label job ticket stranded at_strand =>
      have skipped := (orderly.stages c _ at_strand).2 _ List.mem_cons_self
      refine keeps (linear.move rfl rfl rfl rfl rfl (silent trivial) ?_)
      exact told_append linear.told (.inr ⟨rfl, skipped.1⟩)
  | stranded at_strand =>
      exact keeps (linear.move rfl rfl rfl rfl rfl nofun linear.told)
  | foreign =>
      exact keeps (linear.move rfl rfl rfl rfl rfl (silent trivial) linear.told)
  | foreignReads at_guard =>
      exact keeps (linear.move rfl rfl rfl rfl rfl (silent trivial) linear.told)
  | foreignHands caller at_guard split kept emptied =>
      exact keeps (linear.move rfl rfl rfl rfl rfl (silent trivial) linear.told)

end Server

/-! ### `FifoScheduler` -/

/-- The jobs that were stepped, in the order of their admission, and then those that a
closed machine refused, are calls of the serial machine, with the answers that were
given. -/
structure State.Linearized (machine : SyncMachineStep M E) (initial : M)
    (calls : List (Job E × Bool)) (s : State M E N) : Prop where
  admitted : calls.map Prod.fst <+: s.history.admitted
  stepped : s.held = false → calls.map Prod.fst = s.history.stepped
  serial : ∃ refused : List (Job E × Bool), (∀ call ∈ refused, call.2 = false) ∧
    SerialRuns machine initial ((calls ++ refused).map called) s.machine ∧
      ∀ resolution ∈ s.history.resolutions,
        (resolution.job, resolution.accepted) ∈ calls ++ refused

/-- The refusals among the answers. -/
theorem exists_refused {S : Server M E} {calls : List (Job E × Bool)}
    (resolutions : List (Resolution E))
    (told : ∀ resolution ∈ resolutions,
      S.Told machine calls resolution.job resolution.accepted) :
    ∃ refused : List (Job E × Bool), (∀ call ∈ refused, call.2 = false) ∧
      (refused ≠ [] → S.closed machine = true) ∧ ∀ resolution ∈ resolutions,
        (resolution.job, resolution.accepted) ∈ calls ++ refused := by
  induction resolutions with
  | nil =>
    refine ⟨[], ?_, fun some => absurd rfl some, ?_⟩
    · exact fun _ none => absurd none List.not_mem_nil
    · exact fun _ none => absurd none List.not_mem_nil
  | cons first resolutions ih =>
    obtain ⟨refused, rejected, closed, found⟩ :=
      ih fun resolution among => told resolution (List.mem_cons_of_mem _ among)
    rcases told first List.mem_cons_self with among | ⟨refusal, shut⟩
    · refine ⟨refused, rejected, closed, fun resolution logged => ?_⟩
      rcases List.mem_cons.mp logged with rfl | logged
      · exact List.mem_append_left _ among
      · exact found resolution logged
    · refine ⟨refused ++ [(first.job, false)], ?_, fun _ => shut, ?_⟩
      · intro call among
        rcases List.mem_append.mp among with earlier | last
        · exact rejected call earlier
        · rw [List.mem_singleton.mp last]
      · intro resolution logged
        rw [← List.append_assoc]
        rcases List.mem_cons.mp logged with rfl | logged
        · rw [refusal]
          exact List.mem_append_right _ List.mem_cons_self
        · exact List.mem_append_left _ (found resolution logged)

theorem Server.Linear.linearized {s : State M E N} {calls : List (Job E × Bool)}
    (linear : s.server.Linear machine initial calls)
    (good : s.Good machine True) : s.Linearized machine initial calls where
  admitted := linear.prior.trans good.stepped_ordered
  stepped unlocked := (linear.idle unlocked).symm
  serial := by
    obtain ⟨refused, rejected, closed, found⟩ :=
      exists_refused s.history.resolutions linear.told
    refine ⟨refused, rejected, ?_, found⟩
    refine linear.run.refuse (fun some => ?_) rejected
    have shut := closed some
    unfold Server.closed at shut
    rw [← linear.started, ← Bool.not_eq_true', Bool.not_and, Bool.not_not]
    exact shut

/-- The calls that a run adds come behind those before it. -/
theorem Server.Linear.runs {s t : State M E N} {labels : List Label}
    {calls : List (Job E × Bool)} (fits : N ≤ usizeMax) (good : s.Good machine True)
    (linear : s.server.Linear machine initial calls)
    (run : Runs machine Disciplined s labels t) :
    t.Good machine True ∧
      ∃ later, t.server.Linear machine initial (calls ++ later) := by
  induction run with
  | nil =>
    refine ⟨good, [], ?_⟩
    rw [List.append_nil]
    exact linear
  | snoc _ last inductionHypothesis =>
    obtain ⟨between, before, reached⟩ := inductionHypothesis
    obtain ⟨ring, one⟩ := last.1.refines fits between.ring
    obtain ⟨more, grown⟩ := one.linear between.orderly reached
    refine ⟨last.1.good fits last.2 (fun _ => trivial) between, before ++ more, ?_⟩
    rw [← List.append_assoc]
    exact grown

theorem State.cell_linear :
    (State.cell machine initial : State M E N).server.Linear machine initial [] where
  run := .start
  started := rfl
  prior := List.nil_prefix
  idle _ := rfl
  stages c stage none := by cases none
  told _ none := absurd none List.not_mem_nil

/-! ### `InlineScheduler` -/

/-- What `submit` has returned are calls of the serial machine; the others are the
steps that panicked. -/
def InlineState.Linearized (machine : SyncMachineStep M E) (initial : M)
    (calls : List (Job E × Bool)) (s : InlineState M E) : Prop :=
  s.results.Sublist calls ∧ SerialRuns machine initial (calls.map called) s.cell.machine ∧
    s.cell.started = (machine.start initial).2

theorem InlineStep.linearized {s t : InlineState M E} {label : Label}
    {calls : List (Job E × Bool)} (step : InlineStep machine s label t)
    (guarded : s.Guarded machine) (linear : s.Linearized machine initial calls) :
    ∃ later, t.Linearized machine initial (calls ++ later) := by
  obtain ⟨results, run, started⟩ := linear
  cases step with
  | submit event idle =>
    refine ⟨[], ?_⟩
    rw [List.append_nil]
    exact ⟨results, run, started⟩
  | @reject c job at_lock unlocked refuses =>
    refine ⟨[(job, false)], results.append (List.Sublist.refl _), ?_, started⟩
    refine run.extend (.inl (.of_closed ?_))
    rw [← started]
    exact refuses
  | beginStep at_lock unlocked accepts =>
    refine ⟨[], ?_⟩
    rw [List.append_nil]
    exact ⟨results, run, started⟩
  | @stepReturns c job core accepted at_step returns =>
    have accepts := @InlineState.accepts_eq_not_closed _ _ machine s
    rw [guarded.opened_of_stepping at_step] at accepts
    refine ⟨[(job, accepted)], results.append (List.Sublist.refl _), ?_, started⟩
    refine run.extend (.inl (.of_open ?_ returns))
    rw [← started]
    exact accepts
  | @stepPanics c job core at_step panics =>
    have accepts := @InlineState.accepts_eq_not_closed _ _ machine s
    rw [guarded.opened_of_stepping at_step] at accepts
    refine ⟨[(job, false)], results.trans (List.sublist_append_left _ _), ?_, started⟩
    refine run.extend (.inr ⟨?_, panics, rfl⟩)
    rw [← started]
    exact accepts

theorem InlineStep.run_linearized {s t : InlineState M E} {labels : List Label}
    {calls : List (Job E × Bool)} (guarded : s.Guarded machine)
    (linear : s.Linearized machine initial calls)
    (run : Trace (InlineStep machine) s labels t) :
    t.Guarded machine ∧ ∃ later, t.Linearized machine initial (calls ++ later) := by
  induction run with
  | nil =>
    refine ⟨guarded, [], ?_⟩
    rw [List.append_nil]
    exact linear
  | snoc _ last inductionHypothesis =>
    obtain ⟨between, before, reached⟩ := inductionHypothesis
    obtain ⟨more, grown⟩ := last.linearized between reached
    refine ⟨last.guarded between, before ++ more, ?_⟩
    rw [← List.append_assoc]
    exact grown

end SmlRs.Scheduler
