/-
Module: SmlRs.Macros.Conduct
Purpose: What has to be shown of the rows of a machine, of whatever kind, so that
  it holds of each of its events.
Trusted boundary: none
Main exports: Conduct, Conduct.settles, Conduct.run_event, Conduct.every_event
-/
import SmlRs.Macros.Failing
import SmlRs.Macros.Machines
import SmlRs.Macros.Queues

namespace SmlRs.Macros

open Lib

variable {E : Environment}

/-! ### The terms of a row -/

namespace Terms

variable (terms : Terms E)

/-- Where a row of this cause begins. -/
def pre : Cause → Bool → Core E → Prop
  | .exception serial, handled => terms.walking serial handled
  | .event _, _ | .completion, _ => terms.calm

/-- Where a row of this cause ends. -/
def post : Cause → Core E → Prop
  | .exception serial => terms.walking serial true
  | .event _ | .completion => terms.ran

/-- Where a row of this cause fails. -/
def fail : Cause → Fault E → Core E → Prop
  | .exception _ => terms.out
  | .event _ | .completion => terms.risen

/-- In a dispatch, before (`false`) and after (`true`) the event is handled. -/
def asked : Bool → Core E → Prop
  | true => terms.ran
  | false => terms.calm

end Terms

/-- Notes around the rows of an event. -/
def Happening.framing : Happening E → Prop
  | .turn .. | .handled .. | .recovered _ => True
  | _ => False

/-- What rows guarantee where the events that they raise are answered, and how
the terms of one event hang together. -/
structure Conduct (tree : Tables E) (answered : Calls E → Prop) {ι : Type}
    (terms : ι → Terms E) : Prop where
  row : ∀ calls, answered calls →
    ∀ i cause handled place row payload index change, Within Shifts change →
      Failing change → Triple ((terms i).pre cause handled)
        (tree.fired_row calls cause place row payload index change)
        (fun _ => (terms i).post cause) ((terms i).fail cause)
  guard : ∀ i cause handled error core, (terms i).pre cause handled core →
    (terms i).fail cause (.guard_failed error) (core.note (.raised cause))
  rests : ∀ i core, (terms i).ran core → (terms i).calm core
  noted : ∀ i happening core, happening.framing → (terms i).calm core →
    (terms i).calm (core.note happening)
  settled : ∀ i happening core, happening.framing → (terms i).ran core →
    (terms i).ran (core.note happening)
  counted : ∀ i core, (terms i).calm core →
    (terms i).calm { core with serial := core.serial + 1 }
  faulted : ∀ i fault place core, (terms i).risen fault core →
    (terms i).risen fault (core.note (.faulted place))
  uncaught : ∀ i fault core, fault.error = none ∨
    tree.has_exception_handlers = false → (terms i).risen fault core →
      (terms i).out fault core
  offered : ∀ i fault error core, fault.error = some error →
    tree.has_exception_handlers = true → (terms i).risen fault core →
      (terms i).walking core.serial false
        ({ core with serial := core.serial + 1 }.note (.offered core.serial))
  asked : ∀ i serial handled error place core,
    (terms i).walking serial handled core →
      (terms i).walking serial handled
        (core.note (.recovering serial error place core.view))
  missed : ∀ i serial fault error core, fault.error = some error →
    (terms i).walking serial false core → (terms i).out fault core
  recovered : ∀ i serial core, (terms i).walking serial true core →
    (terms i).ran core
  returned : ∀ i fault core, fault.error = none → fault.rejection = false →
    (terms i).calm core → (terms i).out fault core

namespace Conduct

/-! ### Trees -/

section Tree

variable {tree : Tree E} {answered : Calls E → Prop} {ι : Type}
  {terms : ι → Terms E} (rules : Conduct tree.toTables answered terms)
  {calls : Calls E} (kept : answered calls) (i : ι)

include rules kept

theorem guarantees {start : Core E → Prop} (cause : Cause) (handled : Bool)
    (place : Slot)
    (begins : ∀ core, start core → (terms i).pre cause handled core) :
    Guarantees tree.toTables calls cause place start ((terms i).post cause)
      ((terms i).fail cause) where
  body row _ payload index :=
    (rules.row calls kept i cause handled place row payload index
      (tree.change cause place row payload)
      (shifts_moving.change cause place row payload)
      (.change tree.toTables cause place row payload)).strengthen begins
  guard core error before :=
    rules.guard i cause handled error core (begins core before)

theorem recover_walk {fault : Fault E} {error : E.Data} (site : Nat)
    (failed : fault.error = some error)
    (handlers : tree.has_exception_handlers = true) :
    Triple ((terms i).risen fault) (tree.recover_walk calls error site)
      (fun walk => if walk.recovery.isSome then (terms i).ran
        else (terms i).out fault) (terms i).out := by
  intro core risen
  have walks : Walks tree.toTables calls core.serial error
      (fun _ handled => (terms i).walking core.serial handled)
      (terms i).out := by
    refine ⟨fun _ place _ handled _ _ => ?_, fun _ _ _ _ walking => walking⟩
    have rows := rules.guarantees kept i (.exception core.serial) handled place
      fun _ before => before
    refine (exception_code_triple rows fun core walking =>
      rules.asked i _ handled error place core walking).conseq
        (fun _ => id) ?_ fun _ _ => id
    intro recovery core ends
    cases recovery with
    | none =>
      rw [Option.isSome_none, Bool.or_false]
      exact ends
    | some moved =>
      rw [Option.isSome_some, Bool.or_true]
      exact ends
  refine (walks.recover_walk site rfl
    (rules.offered i fault error core failed handlers risen)).conseq
      (fun _ => id) ?_ (fun _ _ => id) core rfl
  intro walk core' walking
  cases recovery : walk.recovery.isSome with
  | true =>
    rw [recovery] at walking
    exact rules.recovered i core.serial core' walking
  | false =>
    rw [recovery] at walking
    exact rules.missed i core.serial fault error core' failed walking

/-- Outside of the dispatches, whatever lies between `ran` and `calm` is kept. -/
theorem settles {calm : Core E → Prop}
    (low : ∀ core, (terms i).ran core → calm core)
    (high : ∀ core, calm core → (terms i).calm core)
    (noted : ∀ moved core, calm core → calm (core.note (.recovered moved))) :
    Settles tree.toTables calls { terms i with calm := calm } where
  completion place _ origin := by
    have rows := rules.guarantees kept i .completion false place high
    refine completion_code_triple ?_ origin
    exact ⟨fun row declared payload index =>
      (rows.body row declared payload index).conseq (fun _ => id)
        (fun _ => low) fun _ _ => id, rows.guard⟩
  faulted := rules.faulted i
  uncaught := rules.uncaught i
  recover fault error site failed handlers := by
    refine (rules.recover_walk kept i site failed handlers).conseq (fun _ => id)
      ?_ fun _ _ => id
    intro walk core ends
    split
    · rename_i caught
      rw [if_pos caught] at ends
      exact low core ends
    · rename_i missed
      rw [if_neg missed] at ends
      exact ends
  recovered := noted
  diverged core calm := rules.returned i .diverged core rfl rfl (high core calm)

theorem dispatch (event : Event E) {core : Core E} (calm : (terms i).calm core) :
    Triple (· = { core with serial := core.serial + 1 })
      (tree.parent_dispatch calls core.serial event) (terms i).asked
      (terms i).risen := by
  have rests (handled : Bool) (core : Core E)
      (asked : (terms i).asked handled core) : (terms i).calm core := by
    cases handled with
    | true => exact rules.rests i core asked
    | false => exact asked
  have noted (handled : Bool) (happening : Happening E) (core : Core E)
      (frames : happening.framing) (asked : (terms i).asked handled core) :
      (terms i).asked handled (core.note happening) := by
    cases handled with
    | true => exact rules.settled i happening core frames asked
    | false => exact rules.noted i happening core frames asked
  have answers : Answers tree.toTables calls core.serial event (terms i).asked
      (terms i).risen := by
    intro place _ before
    refine @dispatch_code_triple _ _ _ _ _ _
      (fun handled => (terms i).asked (before || handled)) _ _ ?_ ?_ ?_
    · intro handled
      rw [Bool.or_true]
      exact rules.guarantees kept i (.event core.serial) handled place (rests _)
    · rw [Bool.or_false]
      exact fun core => noted before (.turn ..) core trivial
    · exact fun core => noted _ (.handled ..) core trivial
  refine answers.parent_dispatch.strengthen ?_
  rintro _ rfl
  exact rules.counted i core calm

/-- An event that is accepted. -/
theorem tree_run_event {event : Event E} {core : Core E}
    (calm : (terms i).calm core) (accepted : tree.accepts event core.view) :
    Triple (· = core) (tree.run_event calls event) (fun _ => (terms i).ran)
      (terms i).out := by
  have settles := rules.settles kept i (fun _ => id) (rules.rests i)
    fun moved core => rules.settled i (.recovered moved) core trivial
  apply settles.run_event
  · rintro _ rfl closed
    rw [accepted.1] at closed
    cases closed
  · rintro start rfl
    refine ((rules.dispatch kept i event calm).both
      (parent_dispatch_idle start)).conseq ?_ ?_ fun _ _ risen => risen.1
    · rintro _ rfl
      exact ⟨rfl, .counted start⟩
    · rintro handled core' ⟨ends, heard⟩
      cases handled with
      | true => exact ends
      | false => exact absurd heard.1 accepted.2

end Tree

end Conduct

/-! ### Flat machines -/

section Hooks

variable {rel : Core E → Core E → Prop} {flat : Flat E}

theorem call_hook_within (acting : Acting rel) (hook : E.World → E.World) :
    Within rel (call_hook hook) :=
  Within.modifies fun core => acting.world core _

theorem flat_change_within (moving : Moving rel) (row : StateTransition E)
    (payload : Tables.Payload E) : Within rel (flat.change row payload) := by
  have acting := moving.acting
  unfold Flat.change
  split
  · exact Within.seq moving.frame (acting.run_items _ _)
      fun _ => Within.returns moving.frame _
  apply Within.seq moving.frame
  · apply Within.seq moving.frame (Within.gets moving.frame)
    intro core
    apply Within.seq moving.frame
    · unfold Flat.exits
      split
      · exact moving.set_skip Flat.slot false
      apply Within.seq moving.frame (call_hook_within acting _)
      intro _
      apply Within.seq moving.frame (acting.action_calls _ _)
      exact fun _ => moving.noted trivial
    · exact fun _ => moving.set_skip Flat.slot true
  intro _
  apply Within.seq moving.frame (acting.run_actions row payload)
  intro output
  apply Within.seq moving.frame (Within.gets moving.frame)
  intro core
  apply Within.seq moving.frame
  · exact moving.noted trivial
  intro _
  apply Within.seq moving.frame (moving.set_state Flat.slot _)
  intro _
  apply Within.seq moving.frame (moving.set_skip Flat.slot false)
  intro _
  apply Within.seq moving.frame
  · exact moving.noted trivial
  intro _
  apply Within.seq moving.frame
  · exact moving.noted trivial
  intro _
  apply marking_within moving.frame
  · apply Within.seq moving.frame (call_hook_within acting _)
    exact fun _ => acting.action_calls _ _
  · exact fun fault core => moving.moves core _ trivial

end Hooks

namespace Conduct

section Flat

variable {flat : Flat E} {answered : Calls E → Prop} {ι : Type}
  {terms : ι → Terms E} (rules : Conduct flat.tables answered terms)
  {calls : Calls E} (kept : answered calls) (i : ι)

include rules kept

/-- The candidates of a mapping: one of them has run, or none. -/
theorem try_rows {start : Core E → Prop} (cause : Cause) (handled : Bool)
    (begins : ∀ core, start core → (terms i).pre cause handled core)
    (payload : Tables.Payload E) (arm : List (StateTransition E × Nat)) :
    Triple start (flat.try_rows calls cause payload arm)
      (fun ran => if ran then (terms i).post cause else start)
      ((terms i).fail cause) := by
  induction arm with
  | nil => exact Triple.returns fun _ before => before
  | cons item rest ih =>
    obtain ⟨row, index⟩ := item
    have tried : Triple start
        (flat.transition_code calls cause row payload index)
        (fun ran => if ran then (terms i).post cause else start)
        ((terms i).fail cause) := by
      intro core before
      rw [Flat.transition_code_run]
      cases Tables.row_enabled row payload core.view.world index with
      | error error =>
        exact rules.guard i cause handled error core (begins core before)
      | ok enabled =>
        cases enabled with
        | false => exact before
        | true =>
          have body := rules.row calls kept i cause handled Flat.slot row payload
            index (flat.change row payload)
            (flat_change_within shifts_moving row payload)
            (.flat_change flat row payload)
          refine Triple.seq body (fun _ => ?_) core (begins core before)
          exact Triple.returns fun _ after => after
    refine Triple.seq tried fun ran => ?_
    cases ran with
    | true => exact Triple.returns fun _ after => after
    | false => exact ih

/-- A completion keeps whatever lies between `ran` and `calm`. -/
theorem completes {calm : Core E → Prop}
    (low : ∀ core, (terms i).ran core → calm core)
    (high : ∀ core, calm core → (terms i).calm core)
    (payload : Tables.Payload E) (arm : List (StateTransition E × Nat)) :
    Triple calm (flat.try_rows calls .completion payload arm) (fun _ => calm)
      (terms i).risen := by
  refine (rules.try_rows kept i .completion false high payload arm).conseq
    (fun _ => id) ?_ fun _ _ => id
  intro ran core ends
  cases ran with
  | true => exact low core ends
  | false => exact ends

/-- A fault of a dispatch: one of its rows has failed, or it was cut short. -/
def Stopped (terms : Terms E) (fault : Fault E) (core : Core E) : Prop :=
  terms.risen fault core ∨ fault = .diverged ∧ terms.ran core

omit rules kept in
theorem complete {step : Effect E Bool} {calm : Core E → Prop}
    {fail : Fault E → Core E → Prop}
    (each : Triple calm step (fun _ => calm) fail)
    (diverged : ∀ core, calm core → fail .diverged core) (fuel : Nat) :
    Triple calm (Flat.complete step fuel) (fun _ => calm) fail := by
  induction fuel with
  | zero => exact Triple.throws diverged
  | succ fuel ih =>
    refine Triple.seq each fun ran => ?_
    cases ran with
    | true => exact ih
    | false => exact Triple.returns fun _ calm => calm

theorem dispatch_code {serial : Nat} {event : Event E} {core : Core E}
    (calm : (terms i).calm core) (heard : ¬ flat.silent event core.view) :
    Triple (· = core) (flat.dispatch_code calls serial event)
      (fun _ => (terms i).ran) (Stopped (terms i)) := by
  rintro start rfl
  have turned := rules.noted i (.turn serial event Flat.slot start.view) start
    trivial calm
  have loud : (flat.dispatch_arm (start.view.state Flat.slot).ident
      event.ident).isEmpty = false := by
    by_contra empty
    have none : flat.dispatch_arm (start.view.state Flat.slot).ident
        event.ident = [] := by simpa using empty
    refine heard fun item among => ?_
    rw [none] at among
    cases among
  have tried : Triple
      (· = start.note (.turn serial event Flat.slot start.view))
      (flat.try_rows calls (.event serial)
        ⟨(start.view.state Flat.slot).data, event.data⟩
        (flat.dispatch_arm (start.view.state Flat.slot).ident event.ident))
      (fun handled core => handled = true ∧ (terms i).ran core)
      (terms i).risen := by
    have rows := rules.try_rows kept i (.event serial) false
      (fun _ calm => calm) ⟨(start.view.state Flat.slot).data, event.data⟩
      (flat.dispatch_arm (start.view.state Flat.slot).ident event.ident) _ turned
    rintro _ rfl
    cases run : flat.try_rows calls (.event serial)
        ⟨(start.view.state Flat.slot).data, event.data⟩
        (flat.dispatch_arm (start.view.state Flat.slot).ident event.ident)
        (start.note (.turn serial event Flat.slot start.view)) with
    | error fault core' =>
      rw [run] at rows
      exact rows
    | ok handled core' =>
      rw [run] at rows
      cases handled with
      | true => exact ⟨rfl, rows⟩
      | false => exact absurd (Flat.silent_of_try_rows run) heard
  rw [Flat.dispatch_code_run, if_neg (by simp [loud])]
  refine Triple.seq (tried.conseq (fun _ => id) (fun _ _ => id)
    fun _ _ risen => .inl risen) (fun handled => ?_) _ rfl
  rintro core ⟨rfl, ran⟩
  refine Triple.changes
    (fun core => rules.settled i (.handled serial Flat.slot) core trivial)
    ?_ core ran
  refine complete ?_ (fun core ran => .inr ⟨rfl, ran⟩) calls.fuel
  refine Triple.reads fun core => ?_
  exact (rules.completes kept i (fun _ => id) (rules.rests i) _ _).conseq
    (fun _ start => start.2) (fun _ _ => id) fun _ _ risen => .inl risen

theorem dispatch_outcome (fault : Fault E) :
    Triple (Stopped (terms i) fault)
      (flat.dispatch_outcome calls (.error fault)) (fun _ => (terms i).ran)
      (terms i).out := by
  unfold Flat.dispatch_outcome
  dsimp only
  split
  · rename_i unfailed
    refine Triple.throws ?_
    rintro core (risen | ⟨rfl, ran⟩)
    · exact rules.uncaught i fault core (.inl unfailed) risen
    · exact rules.returned i .diverged core rfl rfl (rules.rests i core ran)
  rename_i error failed
  have risen {core : Core E} (stopped : Stopped (terms i) fault core) :
      (terms i).risen fault core := by
    rcases stopped with risen | ⟨rfl, _⟩
    · exact risen
    · cases failed
  split
  · rename_i handlers
    refine Triple.throws fun core stopped => ?_
    refine rules.uncaught i fault core (.inr ?_) (risen stopped)
    simpa using handlers
  rename_i handlers
  intro core stopped
  rw [get_bind_run, set_bind_run]
  have walk : Triple ((terms i).walking core.serial false)
      (flat.process_exception calls core.serial error)
      (fun handled => (terms i).walking core.serial handled)
      (terms i).out := by
    refine Triple.reads fun before => ?_
    refine @Triple.changes _ _ _ _ _ _ ((terms i).walking core.serial false) _ _
      ?_ ?_
    · rintro _ ⟨rfl, walking⟩
      exact rules.asked i core.serial false error Flat.slot _ walking
    refine (rules.try_rows kept i (.exception core.serial) false
      (fun _ walking => walking) _ _).conseq (fun _ => id) ?_ fun _ _ => id
    intro ran core ends
    cases ran with
    | true => exact ends
    | false => exact ends
  refine Triple.seq walk (fun handled => ?_) _
    (rules.offered i fault error core failed (by simpa using handlers)
      (risen stopped))
  cases handled with
  | true => exact Triple.returns (rules.recovered i core.serial)
  | false => exact Triple.throws fun after =>
      rules.missed i core.serial fault error after failed

/-- An event that is accepted. -/
theorem flat_run_event {event : Event E} {core : Core E}
    (calm : (terms i).calm core) (accepted : flat.accepts event core.view) :
    Triple (· = core) (flat.run_event calls event) (fun _ => (terms i).ran)
      (terms i).out := by
  rintro start rfl
  unfold Flat.run_event
  rw [get_bind_run, accepted.1]
  refine Triple.attempted
    (rules.dispatch_code kept i (rules.counted i start calm) accepted.2)
    (fun _ => ?_) (fun fault => rules.dispatch_outcome kept i fault)
    { start with serial := start.serial + 1 } rfl
  exact Triple.returns fun _ ran => ran

end Flat

end Conduct

/-! ### Machines of either kind -/

namespace Conduct

variable {machine : Machine E} {answered : Calls E → Prop} {ι : Type}
  {terms : ι → Terms E} (rules : Conduct machine.tables answered terms)
  {calls : Calls E} (kept : answered calls) (i : ι)

include rules kept

/-- An event that is accepted. -/
theorem run_event {event : Event E} {core : Core E}
    (calm : (terms i).calm core) (accepted : machine.accepts event core.view) :
    Triple (· = core) (machine.run_event calls event) (fun _ => (terms i).ran)
      (terms i).out := by
  cases machine with
  | flat code =>
    have rules : Conduct code.tables answered terms := rules
    exact rules.flat_run_event kept i calm accepted
  | tree code =>
    have rules : Conduct code.toTables answered terms := rules
    exact rules.tree_run_event kept i calm accepted

/-- Any event, where a rejection may be returned as well. -/
theorem every_event
    (rejected : ∀ fault core, fault.rejection = true → (terms i).calm core →
      (terms i).out fault core) (event : Event E) :
    Triple (terms i).calm (machine.run_event calls event)
      (fun _ => (terms i).calm) (terms i).out := by
  intro core calm
  by_cases accepted : machine.accepts event core.view
  · exact (rules.run_event kept i calm accepted).conseq (fun _ => id)
      (fun _ => rules.rests i) (fun _ _ => id) core rfl
  · obtain ⟨fault, core', run, rejects, idle⟩ :=
      @Machine.run_event_idle _ _ calls _ _ accepted
    rw [run]
    refine rejected fault core' rejects (idle.carry (rules.counted i) ?_ calm)
    exact fun core serial event place view calm =>
      rules.noted i (.turn serial event place view) core trivial calm

end Conduct

end SmlRs.Macros
