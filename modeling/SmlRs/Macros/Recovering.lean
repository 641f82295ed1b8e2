/-
Module: SmlRs.Macros.Recovering
Purpose: What becomes of the faults of completions while a machine is initialized,
  and while it answers an event.
Trusted boundary: none
Main exports: Machine.settles, Machine.Handles, Machine.Unrouted,
  Machine.run_event_settles, initialize_routes_iff
-/
import SmlRs.Lib.Couple
import SmlRs.Macros.Stability
import SmlRs.Macros.Steps
import SmlRs.Macros.Termination

namespace SmlRs.Macros

open Lib

variable {E : Environment}

/-! ### Two ways into the completions -/

namespace Machine

variable (machine : Machine E)

/-- The completions behind the rows of an event, and the exception rows that their
faults are offered to. -/
def settles (calls : Calls E) (event : Event E) : Effect E Unit :=
  match machine with
  | .flat code => do
      let outcome ← attempt
        ((Machine.flat code).stabilize_loop calls calls.fuel (some event))
      code.dispatch_outcome calls outcome
  | .tree code => (Machine.tree code).stabilize_loop calls calls.fuel (some event)

/-- Rows for an event run and handle it. -/
def Handles (calls : Calls E) (event : Event E) (core core' : Core E) : Prop :=
  match machine with
  | .flat code =>
      let held := core.view.state Flat.slot
      ∃ mid, code.try_rows calls (.event core.serial) ⟨held.data, event.data⟩
          (code.dispatch_arm held.ident event.ident)
          ({ core with serial := core.serial + 1 }.note
            (.turn core.serial event Flat.slot core.view)) = .ok true mid ∧
        core' = mid.note (.handled core.serial Flat.slot)
  | .tree code =>
      code.parent_dispatch calls core.serial event
        { core with serial := core.serial + 1 } = .ok true core'

/-- The event has no completion rows of its own. -/
def Uncompleted (event : Event E) : Prop :=
  ∀ row ∈ machine.tables.transitions, row.triggered .completion event.ident = false

/-- Rows for any completion bind no event data and defer no event. -/
def Blank : Prop :=
  ∀ row ∈ machine.tables.transitions, row.anonymous .completion = true →
    row.event.data_type = false ∧ row.defer = false

/-- A flat machine has exception rows, and its anonymous completions fail with the
error of a callback. -/
def Unrouted (fuel : Nat) (core : Core E) : Prop :=
  match machine with
  | .flat code =>
      code.tables.has_exception_handlers = true ∧
        ∃ fault core', machine.stabilize_loop ⟨machine.process_event fuel, fuel⟩ fuel
            none core = .error fault core' ∧
          fault.error.isSome = true
  | .tree _ => False

end Machine

/-! ### Trees -/

section Tree

variable {tree : Tree E} {event : Event E}
  (uncompleted : (Machine.tree tree).Uncompleted event) (calls : Calls E)

include uncompleted

theorem origin_code_uncompleted {place : Slot} (inside : place.node < tree.size) :
    tree.origin_code calls place (some event) = pure false := by
  have arm (state : E.Ident) : tree.origin_arm place state event.ident = [] := by
    have none_for : (tree.rows place state).filter
        (fun row => row.triggered .completion event.ident) = [] := by
      apply List.filter_eq_nil_iff.mpr
      intro row among
      have quiet := uncompleted row (List.mem_flatMap.mpr
        ⟨place.node, List.mem_range.mpr inside, (Tables.mem_rows among).1⟩)
      exact ne_true_of_eq_false quiet
    unfold Tables.origin_arm
    dsimp only
    rw [none_for, List.take_nil, ite_self]
  funext core
  show tree.run_completions calls place event.data
    (tree.origin_arm place (core.view.state place).ident event.ident) core = _
  rw [arm]
  unfold Tables.run_completions
  rw [get_bind_run]
  simp

/-- A pass for such an event is one without an origin. -/
theorem completion_step_uncompleted (settled : Nat → Bool) :
    tree.completion_step calls none settled =
      tree.completion_step calls (some event) settled := by
  apply Couples.eq
  apply Couples.foldlM
  intro handled node among
  apply Couples.reads
  rintro core _ rfl
  split
  · exact .ok rfl
  have each : Couples Eq (tree.node_completions calls none settled node)
      (tree.node_completions calls (some event) settled node) := by
    apply Couples.foldlM
    intro progressed place listed
    have inside := (tree.placed_of_walk among listed).1
    have code : tree.completion_code calls place none =
        tree.completion_code calls place (some event) := by
      unfold Tables.completion_code
      rw [origin_code_uncompleted uncompleted calls inside]
      rfl
    have site : tree.completion_site calls none settled place =
        tree.completion_site calls (some event) settled place := by
      unfold Tables.completion_site
      rw [code]
    rw [site]
    exact Couples.of_eq rfl
  exact each core core rfl

/-- The loop behind such an event does what it does without an origin. -/
theorem stabilize_loop_uncompleted (fuel : Nat) (settled : Nat → Bool) (core : Core E) :
    (tree.stabilize_loop calls fuel none settled >>= fun _ => pure ()) core =
      (tree.stabilize_loop calls fuel (some event) settled >>= fun _ => pure ())
        core := by
  induction fuel generalizing settled core with
  | zero => rfl
  | succ fuel ih =>
    unfold Tables.stabilize_loop
    rw [bind_assoc, bind_assoc, completion_step_uncompleted uncompleted calls settled, bind_run,
      bind_run]
    cases attempt (tree.completion_step calls (some event) settled) core with
    | error fault core' => rfl
    | ok outcome core' =>
      rcases outcome with ⟨site, fault⟩ | handled
      · dsimp only
        cases raised : fault.error with
        | none => rfl
        | some error =>
          cases handlers : tree.has_exception_handlers with
          | false => rfl
          | true =>
            simp only [Bool.not_true, Bool.false_eq_true, if_false, bind_assoc]
            rw [bind_run, bind_run]
            cases tree.recover_walk calls error site core' with
            | error fault' last => rfl
            | ok walk last =>
              dsimp only
              cases walk.recovery with
              | none => rfl
              | some moved =>
                -- A row that has moved drops the origin.
                cases moved with
                | true => rfl
                | false =>
                  cases tree.track_settle_sites with
                  | true => exact ih _ _
                  | false => rfl
      · cases handled with
        | false => rfl
        | true => exact ih settled core'

end Tree

/-! ### Flat machines -/

section Flat

variable {flat : Flat E} {event : Event E}

/-- A row for any completion does not look at the data of an event. -/
theorem transition_code_blank (calls : Calls E) {row : StateTransition E}
    (untyped : row.event.data_type = false) (kept : row.defer = false)
    (state_data event_data event_data' : E.Data) (index : Nat) :
    flat.transition_code calls .completion row ⟨state_data, event_data⟩ index =
      flat.transition_code calls .completion row ⟨state_data, event_data'⟩ index := by
  have args (data : E.Data) : row.callback_args state_data data =
      row.callback_args state_data E.default := by
    unfold StateTransition.callback_args
    simp [untyped]
  unfold Flat.transition_code Flat.row_body Tables.perform Tables.defer_code Flat.change
    Flat.move Tables.run_actions Tables.row_enabled
  simp only [args event_data, args event_data', kept, Bool.false_eq_true, if_false]

theorem try_rows_blank (calls : Calls E) (state_data event_data event_data' : E.Data)
    {arm : List (StateTransition E × Nat)}
    (blank : ∀ item ∈ arm, item.1.event.data_type = false ∧ item.1.defer = false) :
    flat.try_rows calls .completion ⟨state_data, event_data⟩ arm =
      flat.try_rows calls .completion ⟨state_data, event_data'⟩ arm := by
  induction arm with
  | nil => rfl
  | cons item rest ih =>
    obtain ⟨untyped, kept⟩ := blank item (by simp)
    unfold Flat.try_rows
    rw [transition_code_blank calls untyped kept state_data event_data event_data',
      ih fun other among => blank other (by simp [among])]

/-- A pass for an event without completion rows of its own is one of
initialization. -/
theorem process_completion_uncompleted (blank : (Machine.flat flat).Blank)
    (uncompleted : (Machine.flat flat).Uncompleted event) (calls : Calls E) :
    flat.process_completion calls event = flat.process_anonymous_completion calls := by
  have declared {state : E.Ident} {row : StateTransition E}
      (among : row ∈ flat.table.rows state) :
      row ∈ (Machine.flat flat).tables.transitions := by
    apply List.mem_flatMap.mpr
    exact ⟨0, List.mem_range.mpr Nat.one_pos, List.mem_of_mem_filter among⟩
  funext core
  have arm : flat.completion_arm (core.view.state Flat.slot).ident event.ident =
      flat.mapping (core.view.state Flat.slot).ident
        (fun row => row.anonymous .completion) := by
    apply Flat.completion_arm_anonymous
    unfold Flat.mapping
    rw [List.zipIdx_eq_nil_iff, List.filter_eq_nil_iff]
    intro row among
    exact ne_true_of_eq_false (uncompleted row (declared among))
  show flat.try_rows calls .completion _ _ core = flat.try_rows calls .completion _ _ core
  rw [arm]
  have blank_arm : ∀ item ∈ flat.mapping (core.view.state Flat.slot).ident
      (fun row => row.anonymous .completion),
      item.1.event.data_type = false ∧ item.1.defer = false := by
    intro item among
    obtain ⟨listed, anonymous⟩ :=
      List.mem_filter.mp (List.fst_mem_of_mem_zipIdx among)
    exact blank item.1 (declared listed) anonymous
  exact congrFun (try_rows_blank calls _ event.data E.default blank_arm) core

/-- A fault that is offered to the exception rows leaves a mark. -/
theorem dispatch_outcome_offered (handlers : flat.tables.has_exception_handlers = true)
    (fuel : Nat) {fault : Fault E} (raised : fault.error.isSome = true)
    (core : Core E) :
    flat.dispatch_outcome ⟨flat.process_event fuel, fuel⟩ (.error fault) core ≠
      .error fault core := by
  obtain ⟨error, error_of⟩ := Option.isSome_iff_exists.mp raised
  intro same
  have asked : Longer (({ core with serial := core.serial + 1 } : Core E).note
        (.offered core.serial))
      (final (flat.dispatch_outcome ⟨flat.process_event fuel, fuel⟩ (.error fault))
        core) := by
    have steps : Steps True flat.tables Longer := longer_steps flat.tables
    have walk : Within Longer (do
        let handled ← flat.process_exception ⟨flat.process_event fuel, fuel⟩
          core.serial error
        if handled then pure () else throw fault : Effect E Unit) := by
      apply Within.seq steps.frame
        (flat_process_exception steps (flat_process_event steps fuel) core.serial error)
      intro handled
      split
      · exact Within.returns steps.frame ()
      · exact Within.throws steps.frame fault
    have run : final (flat.dispatch_outcome ⟨flat.process_event fuel, fuel⟩
        (.error fault)) core = final (do
          let handled ← flat.process_exception ⟨flat.process_event fuel, fuel⟩
            core.serial error
          if handled then pure () else throw fault : Effect E Unit)
        (({ core with serial := core.serial + 1 } : Core E).note
          (.offered core.serial)) := by
      unfold Flat.dispatch_outcome
      dsimp only
      rw [error_of, handlers]
      rfl
    rw [run]
    exact walk.final _
  have ended : final (flat.dispatch_outcome ⟨flat.process_event fuel, fuel⟩
      (.error fault)) core = core := by
    unfold final
    rw [same]
  rw [ended] at asked
  have grown := asked.length_le
  simp at grown

end Flat

/-! ### Machines of either kind -/

namespace Machine

variable {machine : Machine E} {calls : Calls E} {event : Event E}

/-- A dispatch whose rows have handled the event goes on with its completions. -/
theorem run_event_settles {core core' : Core E}
    (allowed : E.dispatch core.view.world event.ident = true)
    (handles : machine.Handles calls event core core') :
    machine.run_event calls event core = machine.settles calls event core' := by
  cases machine with
  | flat code =>
    obtain ⟨mid, ran, rfl⟩ := handles
    have dispatched : code.dispatch_code calls core.serial event
        { core with serial := core.serial + 1 } =
        Flat.complete (code.process_completion calls event) calls.fuel
          (mid.note (.handled core.serial Flat.slot)) := by
      rw [Flat.dispatch_code_run]
      split
      · rename_i empty
        rw [List.isEmpty_iff] at empty
        rw [empty] at ran
        cases ran
      · rw [bind_run, ran]
        rfl
    show code.run_event calls event core = _
    unfold Flat.run_event
    rw [get_bind_run, allowed]
    show (attempt (code.dispatch_code calls core.serial event) >>= _)
      { core with serial := core.serial + 1 } = (attempt _ >>= _) _
    rw [bind_run, bind_run]
    unfold attempt
    rw [dispatched]
    rfl
  | tree code =>
    have attempted : code.dispatch_attempt calls event core =
        .ok (true, false) core' := by
      show (attempt (code.parent_dispatch calls core.serial event) >>= _)
        { core with serial := core.serial + 1 } = _
      rw [bind_run]
      unfold attempt
      rw [show code.parent_dispatch calls core.serial event
        { core with serial := core.serial + 1 } = .ok true core' from handles]
      rfl
    show code.run_event calls event core = _
    unfold Tables.run_event
    rw [get_bind_run, allowed]
    show (code.dispatch_attempt calls event >>= _) core = _
    rw [bind_run, attempted]
    rfl

theorem stabilize_loop_routed (blank : machine.Blank) (uncompleted : machine.Uncompleted event)
    (fuel : Nat) (core : Core E) :
    machine.stabilize_loop ⟨machine.process_event fuel, fuel⟩ fuel none core =
        machine.settles ⟨machine.process_event fuel, fuel⟩ event core ↔
      ¬ machine.Unrouted fuel core := by
  cases machine with
  | tree code =>
    constructor
    · exact fun _ => id
    · intro _
      exact stabilize_loop_uncompleted uncompleted _ fuel _ core
  | flat code =>
    have step := process_completion_uncompleted blank uncompleted ⟨code.process_event fuel, fuel⟩
    have loop : (Machine.flat code).stabilize_loop ⟨code.process_event fuel, fuel⟩ fuel
        none = (Machine.flat code).stabilize_loop ⟨code.process_event fuel, fuel⟩ fuel
          (some event) := by
      unfold Machine.stabilize_loop Machine.completion_step
      dsimp only
      rw [step]
    have ended : (Machine.flat code).settles ⟨code.process_event fuel, fuel⟩ event core =
        (attempt ((Machine.flat code).stabilize_loop ⟨code.process_event fuel, fuel⟩
          fuel none) >>= code.dispatch_outcome ⟨code.process_event fuel, fuel⟩) core := by
      rw [loop]
      rfl
    have unrouted : (Machine.flat code).Unrouted fuel core ↔
        code.tables.has_exception_handlers = true ∧ ∃ fault core',
          (Machine.flat code).stabilize_loop ⟨code.process_event fuel, fuel⟩ fuel none
            core = .error fault core' ∧ fault.error.isSome = true := Iff.rfl
    show (Machine.flat code).stabilize_loop ⟨code.process_event fuel, fuel⟩ fuel none
      core = (Machine.flat code).settles ⟨code.process_event fuel, fuel⟩ event core ↔ _
    rw [ended, unrouted, bind_run]
    unfold attempt
    cases run : (Machine.flat code).stabilize_loop ⟨code.process_event fuel, fuel⟩ fuel
        none core with
    | ok value core' =>
      constructor
      · rintro _ ⟨_, fault, last, failed, _⟩
        cases failed
      · exact fun _ => rfl
    | error fault core' =>
      dsimp only
      constructor
      · rintro same ⟨handlers, _, _, failed, raised⟩
        cases failed
        exact dispatch_outcome_offered handlers fuel raised core' same.symm
      · intro routed
        unfold Flat.dispatch_outcome
        dsimp only
        cases raised : fault.error with
        | none => rfl
        | some error =>
          cases handlers : code.tables.has_exception_handlers with
          | false => rfl
          | true =>
            exact absurd ⟨handlers, fault, core', rfl, by rw [raised]; rfl⟩ routed

end Machine

/-- The row for any completion of the initial state fails, and there is an exception
row for it. An event leaves the machine in this state. -/
def stumbling : Flat sample where
  table := scalar 0 [1, 2]
    [{ in_state := plain 0, event := on 0, out_state := plain 0,
       internal_transition := true },
     { completes 0 1 with actions := [Name.fails] },
     { in_state := plain 0,
       event := { kind := .exception, ident := Name.X, wildcard := true },
       out_state := plain 2 }]

theorem stumbling_blank : (Machine.flat stumbling).Blank := by
  unfold Machine.Blank
  decide

theorem stumbling_uncompleted :
    @Machine.Uncompleted sample (.flat stumbling) ⟨Name.event 0, ()⟩ := by
  unfold Machine.Uncompleted
  decide

end SmlRs.Macros
