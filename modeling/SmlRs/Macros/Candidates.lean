/-
Module: SmlRs.Macros.Candidates
Purpose: Whether the row that runs for an unexpected event, a completion or an
  error is the first of its candidates whose guard is true.
Trusted boundary: none
Main exports: Cue, Machine.candidates, Machine.tried, Machine.serve,
  Machine.RunsFirst, Machine.Dead, first_candidate_iff
-/
import SmlRs.Lib.Choice
import SmlRs.Macros.Routing
import SmlRs.Macros.Steps

namespace SmlRs.Macros

open Lib

variable {E : Environment}

/-! ### The rows that share a trigger -/

/-- What the rows of a trigger are offered to: an event without a normal row, the
completion of an event, a completion without rows of its own, an error. -/
inductive Cue (E : Environment) where
  | event (serial : Nat) (event : Event E)
  | completion (origin : Event E)
  | anonymous (origin : Option (Event E))
  | error (serial : Nat) (error : E.Data)

def Cue.cause : Cue E → Cause
  | .event serial _ => .event serial
  | .completion _ | .anonymous _ => .completion
  | .error serial _ => .exception serial

/-- A trigger for the error type. -/
def StateTransition.typed_exception (row : StateTransition E) : Bool :=
  row.event.kind = .exception && !row.event.wildcard

/-- `exception<_>`. -/
def StateTransition.any_exception (row : StateTransition E) : Bool :=
  row.event.kind = .exception && row.event.wildcard

namespace Flat

variable (flat : Flat E)

/-- The rows for a cue in the order in which they are due. -/
def candidates (state : E.Ident) : Cue E → List (StateTransition E × Nat)
  | .event _ event =>
      first_of
        [flat.mapping state fun row => row.triggered .unexpected event.ident,
          flat.mapping state fun row => row.anonymous .unexpected]
  | .completion origin =>
      flat.mapping state fun row => row.triggered .completion origin.ident
  | .anonymous _ => flat.mapping state fun row => row.anonymous .completion
  | .error _ _ =>
      flat.mapping state (·.typed_exception) ++
        flat.mapping state (·.any_exception)

/-- The rows that the generated code tries for a cue. -/
def tried (state : E.Ident) : Cue E → List (StateTransition E × Nat)
  | .event _ event => flat.dispatch_arm state event.ident
  | .completion origin | .anonymous (some origin) =>
      flat.completion_arm state origin.ident
  | .anonymous none => flat.mapping state fun row => row.anonymous .completion
  | .error _ _ => flat.exception_arm state

/-- The payload that rows see for a cue. -/
def cue_data : Cue E → E.Data
  | .event _ event => event.data
  | .completion origin | .anonymous (some origin) => origin.data
  | .anonymous none => E.default
  | .error _ error => error

def cue_payload (cue : Cue E) (view : View E) : Tables.Payload E :=
  ⟨(view.state slot).data, cue_data cue⟩

/-- The code that tries the rows for a cue. -/
def serve (calls : Calls E) (cue : Cue E) : Effect E Bool := do
  let core ← get
  flat.try_rows calls cue.cause (cue_payload cue core.view)
    (flat.tried (core.view.state slot).ident cue)

/-- How a row is tried.  Behind a row that has run, none is. -/
def trial (calls : Calls E) (cue : Cue E) (start : View E) :
    Trial (Core E) (Fault E) E.Data (StateTransition E × Nat) where
  condition core item handled :=
    if handled then .ok false
    else Tables.row_enabled item.1 (cue_payload cue start) core.view.world item.2
  body item := flat.row_body calls cue.cause item.1 (cue_payload cue start) item.2
  fail := .guard_failed
  mark core := core.note (.raised cue.cause)

section Serve

variable {flat} {calls : Calls E} {core : Core E}

theorem serve_run (cue : Cue E) :
    flat.serve calls cue core =
      flat.try_rows calls cue.cause (cue_payload cue core.view)
        (flat.tried (core.view.state slot).ident cue) core := rfl

theorem process_completion_serves (origin : Event E) :
    flat.process_completion calls origin =
        flat.serve calls (.completion origin) ∧
      flat.process_completion calls origin =
        flat.serve calls (.anonymous (some origin)) :=
  ⟨rfl, rfl⟩

theorem process_anonymous_completion_serves :
    flat.process_anonymous_completion calls =
      flat.serve calls (.anonymous none) := rfl

theorem process_exception_serves (serial : Nat) (error : E.Data) :
    flat.process_exception calls serial error core =
      flat.serve calls (.error serial error)
        (core.note (.recovering serial error slot core.view)) := rfl

theorem dispatch_code_serves (serial : Nat) (event : Event E) :
    flat.dispatch_code calls serial event core =
      (if (flat.tried (core.view.state slot).ident
          (.event serial event)).isEmpty then throw .invalid_event
        else do
          let handled ← flat.serve calls (.event serial event)
          if handled then do
            note (.handled serial slot)
            complete (flat.process_completion calls event) calls.fuel
          else throw .transitions_failed : Effect E Unit)
        (core.note (.turn serial event slot core.view)) := by
  rw [dispatch_code_run]
  unfold tried
  split
  · rfl
  · rw [bind_run, bind_run, serve_run]
    rfl

end Serve

end Flat

namespace Tables

variable (tree : Tables E) (place : Slot)

/-- The rows for a cue in the order in which they are due. -/
def candidates (state : E.Ident) : Cue E → List (StateTransition E × Nat)
  | .event _ event =>
      Flat.first_of
        [((tree.rows place state).filter fun row =>
            row.triggered .unexpected event.ident).zipIdx,
          ((tree.rows place state).filter fun row =>
            row.anonymous .unexpected).zipIdx]
  | .completion origin =>
      ((tree.rows place state).filter fun row =>
        row.triggered .completion origin.ident).map fun row => (row, 0)
  | .anonymous _ =>
      ((tree.rows place state).filter fun row =>
        row.anonymous .completion).map fun row => (row, 0)
  | .error _ _ =>
      ((tree.rows place state).filter (·.typed_exception) ++
        (tree.rows place state).filter (·.any_exception)).map fun row => (row, 0)

/-- The rows that the generated code tries for a cue. -/
def tried (state : E.Ident) : Cue E → List (StateTransition E × Nat)
  | .event _ event => tree.dispatch_arm place state event.ident
  | .completion origin =>
      (tree.origin_arm place state origin.ident).map fun row => (row, 0)
  | .anonymous _ => (tree.anonymous_arm place state).map fun row => (row, 0)
  | .error _ _ => (tree.exception_arm place state).map fun row => (row, 0)

/-- The payload that rows see for a cue. -/
def cue_data : Cue E → E.Data
  | .event _ event => event.data
  | .completion origin => origin.data
  | .anonymous _ => E.default
  | .error _ error => error

/-- The code that tries the rows for a cue. -/
def serve (calls : Calls E) : Cue E → Effect E Bool
  | .event serial event => do
      let core ← get
      let held := core.view.state place
      tree.run_arm calls (.event serial) place held.data event.data
        (tree.dispatch_arm place held.ident event.ident) false
  | .completion origin => tree.origin_code calls place (some origin)
  | .anonymous origin => tree.completion_code calls place origin
  | .error serial error => do
      let core ← get
      let held := core.view.state place
      let outcome ← (tree.exception_arm place held.ident).foldlM
        (tree.exception_row calls serial place held.data error) none
      pure outcome.isSome

/-- The condition of a row for a cue.  A region looks at the source of a
completion row each time, and an exception row ends the match. -/
def cue_condition (cue : Cue E) (start view : View E)
    (item : StateTransition E × Nat) (handled : Bool) : Except E.Data Bool :=
  let checked := tree.branch_condition place (start.state place).data
    (cue_data cue) view item handled
  match cue with
  | .event _ _ => checked
  | .completion _ | .anonymous _ =>
      if (tree.node place.node).orthogonal && !tree.eligible view place item.1
        then .ok false
      else checked
  | .error _ _ => if handled then .ok false else checked

/-- How a row is tried. -/
def trial (calls : Calls E) (cue : Cue E) (start : View E) :
    Trial (Core E) (Fault E) E.Data (StateTransition E × Nat) where
  condition core item handled :=
    tree.cue_condition place cue start core.view item handled
  body item := do
    let core ← get
    tree.row_body calls cue.cause place item.1
      (tree.payload place (start.state place).data (cue_data cue) core.view
        item.1) item.2
  fail := .guard_failed
  mark core := core.note (.raised cue.cause)

section Serve

variable {tree place} {calls : Calls E} {core : Core E}

theorem dispatch_code_serves (serial : Nat) (event : Event E) :
    tree.dispatch_code calls serial place event core =
      (do
        let handled ← tree.serve place calls (.event serial event)
        given handled (note (.handled serial place))
        pure handled : Effect E Bool)
        (core.note (.turn serial event place core.view)) := rfl

theorem exception_code_serves (serial : Nat) (error : E.Data) :
    (do
      let outcome ← tree.exception_code calls serial place error
      pure outcome.isSome : Effect E Bool) core =
      tree.serve place calls (.error serial error)
        (core.note (.recovering serial error place core.view)) := rfl

end Serve

end Tables

namespace Machine

variable (place : Slot)

/-- The rows of the state that a table or region holds. -/
def held_rows (view : View E) : Machine E → List (StateTransition E)
  | .flat code => code.table.rows (view.state Flat.slot).ident
  | .tree code => code.rows place (view.state place).ident

/-- The rows for a cue in the order in which they are due. -/
def candidates (view : View E) (cue : Cue E) :
    Machine E → List (StateTransition E × Nat)
  | .flat code => code.candidates (view.state Flat.slot).ident cue
  | .tree code => code.candidates place (view.state place).ident cue

/-- The rows that the generated code tries for a cue. -/
def tried (view : View E) (cue : Cue E) :
    Machine E → List (StateTransition E × Nat)
  | .flat code => code.tried (view.state Flat.slot).ident cue
  | .tree code => code.tried place (view.state place).ident cue

/-- Whether the policy accepts a row and its whole declared guard is true. -/
def enabled (view : View E) (cue : Cue E) (item : StateTransition E × Nat) :
    Machine E → Except E.Data Bool
  | .flat _ =>
      Tables.row_enabled item.1 (Flat.cue_payload cue view) view.world item.2
  | .tree code =>
      code.enabled place (view.state place).data (Tables.cue_data cue) view item

/-- An alternative of the guard of a row is true though the policy rejects it. -/
def leaks (view : View E) (cue : Cue E) (item : StateTransition E × Nat) :
    Machine E → Prop
  | .flat _ => False
  | .tree code =>
      code.Leaks place (view.state place).data (Tables.cue_data cue) view item
        false

/-- The code that tries the rows for a cue. -/
def serve (calls : Calls E) (cue : Cue E) : Machine E → Effect E Bool
  | .flat code => code.serve calls cue
  | .tree code => code.serve place calls cue

def trial (calls : Calls E) (cue : Cue E) (start : View E) :
    Machine E → Trial (Core E) (Fault E) E.Data (StateTransition E × Nat)
  | .flat code => code.trial calls cue start
  | .tree code => code.trial place calls cue start

/-- The state of the slot may complete: a composite one has to be terminal. -/
def finished (view : View E) : Machine E → Prop
  | .flat _ => True
  | .tree code =>
      code.child place.node (view.state place).ident = none ∨
        code.child_terminal view place = true

/-- The slot lies in a table of the machine. -/
def inside : Machine E → Prop
  | .flat _ => True
  | .tree code => place.node < code.size

variable (machine : Machine E)

/-- The trigger of a cue is the one whose rows are asked: there is no normal row
for an unexpected event, and a completion has rows of its own or has none. -/
def asked (view : View E) : Cue E → Prop
  | .event _ event =>
      ∀ row ∈ machine.held_rows place view,
        row.triggered .normal event.ident = false
  | .completion origin =>
      (∃ row ∈ machine.held_rows place view,
          row.triggered .completion origin.ident = true) ∧
        machine.finished place view
  | .anonymous origin =>
      (∀ event, origin = some event → ∀ row ∈ machine.held_rows place view,
          row.triggered .completion event.ident = false) ∧
        machine.finished place view
  | .error _ _ => True

def due (view : View E) (cue : Cue E) : Prop :=
  machine.inside place ∧ machine.asked place view cue

/-- The first candidate whose declared condition is true. -/
def chosen (view : View E) (cue : Cue E) : Option (StateTransition E × Nat) :=
  pick (fun item => machine.enabled place view cue item)
    (machine.candidates place view cue)

/-- The calls that are nested in a call of a user. -/
def calls (fuel : Nat) : Calls E :=
  ⟨machine.process_event fuel, fuel⟩

/-- The row that runs for a cue is the first candidate whose declared condition is
true, and no other one runs; where there is none, no row runs. -/
def RunsFirst (fuel : Nat) (cue : Cue E) (core : Core E) : Prop :=
  machine.due place core.view cue →
    (machine.trial place (machine.calls fuel) cue core.view).Obeys
      (machine.serve place (machine.calls fuel) cue)
      (machine.chosen place core.view cue) core

/-- The row that ought to run is none of those that the generated code tries. -/
def Dead (view : View E) (cue : Cue E) : Prop :=
  machine.due place view cue ∧
    ∃ item, machine.chosen place view cue = some item ∧
      item ∉ machine.tried place view cue

/-- The generated code tries a row that the policy rejects, and an alternative of
its guard is true. -/
def Bypasses (view : View E) (cue : Cue E) : Prop :=
  machine.due place view cue ∧
    ∃ item ∈ machine.tried place view cue, machine.leaks place view cue item

/-- Behind the row that ought to run, an alternative of the guard of a later row is
not false in the state that is found there. -/
def Overruns (fuel : Nat) (cue : Cue E) (core : Core E) : Prop :=
  machine.due place core.view cue ∧
    (machine.trial place (machine.calls fuel) cue core.view).Overruns
      (machine.tried place core.view cue) (machine.chosen place core.view cue)
      core

end Machine

/-! ### Several tables -/

namespace Tables

variable {tree : Tables E} {place : Slot} {calls : Calls E} {cue : Cue E}
  {start : View E} {item : StateTransition E × Nat} {handled : Bool}
  {core : Core E}

/-- Where the condition is the one of its branch, a row is tried as it is. -/
theorem step_run
    (checked : tree.cue_condition place cue start core.view item handled =
      tree.branch_condition place (start.state place).data (cue_data cue)
        core.view item handled) :
    (tree.trial place calls cue start).step handled item core =
      tree.branch calls cue.cause place (start.state place).data (cue_data cue)
        item.2 item.1 handled core := by
  rw [branch_run]
  unfold Trial.step trial
  dsimp only
  rw [checked]
  cases tree.branch_condition place (start.state place).data (cue_data cue)
      core.view item handled with
  | error error => rfl
  | ok value => cases value <;> rfl

theorem serve_event (serial : Nat) (event : Event E) :
    tree.serve place calls (.event serial event) core =
      (tree.trial place calls (.event serial event) core.view).run
        (tree.tried place (core.view.state place).ident (.event serial event))
        core := by
  have steps : (tree.trial place calls (.event serial event) core.view).step =
      fun handled item => tree.branch calls (.event serial) place
        (core.view.state place).data event.data item.2 item.1 handled := by
    funext handled item mid
    exact step_run rfl
  unfold Trial.run
  rw [steps]
  rfl

/-- A completion arm whose source may complete. -/
theorem run_completions_run {arm : List (StateTransition E)}
    (completes : ∀ view item handled,
      tree.cue_condition place cue start view item handled =
        if (tree.node place.node).orthogonal && !tree.eligible view place item.1
          then .ok false
        else tree.branch_condition place (start.state place).data (cue_data cue)
          view item handled)
    (cause : cue.cause = .completion)
    (open_arm : ∀ row ∈ arm, tree.eligible core.view place row = true)
    (held : start.state place = core.view.state place) :
    tree.run_completions calls place (cue_data cue) arm core =
      (tree.trial place calls cue start).run (arm.map fun row => (row, 0))
        core := by
  have steps : (fun handled row =>
      (tree.trial place calls cue start).step handled (row, 0)) =
        fun handled row => (do
          let mid ← get
          if (tree.node place.node).orthogonal && !tree.eligible mid.view place row
            then pure handled
          else
            tree.branch calls .completion place (core.view.state place).data
              (cue_data cue) 0 row handled : Effect E Bool) := by
    funext handled row mid
    rw [get_bind_run]
    by_cases closed : ((tree.node place.node).orthogonal &&
        !tree.eligible mid.view place row) = true
    · rw [if_pos closed]
      unfold Trial.step trial
      dsimp only
      rw [completes, if_pos closed]
      rfl
    · rw [if_neg closed, ← cause, ← held]
      apply step_run
      rw [completes, if_neg closed]
  have admitted : arm.all (tree.eligible core.view place) = true := by
    simpa using open_arm
  unfold Trial.run run_completions
  rw [List.foldlM_map, steps, get_bind_run, if_neg (by simp [admitted])]

/-- The match of the exception rows ends with the first that runs. -/
theorem exception_rows_run (serial : Nat) (error : E.Data)
    (arm : List (StateTransition E)) (start : View E) :
    (arm.foldlM (tree.exception_row calls serial place (start.state place).data
        error) none >>= fun outcome => pure outcome.isSome) core =
      (tree.trial place calls (.error serial error) start).run
        (arm.map fun row => (row, 0)) core := by
  have ended (rest : List (StateTransition E × Nat)) (last : Core E) :
      rest.foldlM (tree.trial place calls (.error serial error) start).step true
        last = .ok true last := by
    induction rest with
    | nil => rfl
    | cons item rest ih =>
      rw [Trial.run_cons]
      exact ih
  unfold Trial.run
  induction arm with
  | nil => rfl
  | cons row rest ih =>
    rw [bind_run, exception_rows_cons, List.map_cons, Trial.run_cons]
    have checked : (tree.trial place calls (.error serial error) start).condition
        core (row, 0) false =
          tree.branch_condition place (start.state place).data error core.view
            (row, 0) false := rfl
    rw [checked]
    cases tree.branch_condition place (start.state place).data error core.view
        (row, 0) false with
    | error fault => rfl
    | ok value =>
      cases value with
      | false =>
        rw [bind_run] at ih
        exact ih
      | true =>
        dsimp only
        have body : (tree.trial place calls (.error serial error) start).body
            (row, 0) core = tree.row_body calls (.exception serial) place row
              (tree.payload place (start.state place).data error core.view row)
              0 core := rfl
        rw [bind_run, bind_run, body]
        cases tree.row_body calls (.exception serial) place row
            (tree.payload place (start.state place).data error core.view row) 0
            core with
        | error fault last => rfl
        | ok value last => exact (ended _ last).symm

end Tables

namespace Tables

variable {tree : Tables E} {place : Slot} {state : E.Ident}

/-- Without a normal row, the arm of an event is its first candidate. -/
theorem dispatch_arm_take {event : E.Ident} {serial : Nat} {data : E.Data}
    (unexpected : ∀ row ∈ tree.rows place state,
      row.triggered .normal event = false) :
    tree.dispatch_arm place state event =
      (tree.candidates place state (.event serial ⟨event, data⟩)).take 1 := by
  have normal : (tree.rows place state).filter
      (fun row => row.triggered .normal event) = [] := by
    rw [List.filter_eq_nil_iff]
    intro row among
    simp [unexpected row among]
  unfold dispatch_arm candidates
  dsimp only
  rw [normal]
  dsimp only
  rw [← List.head?_filter, ← List.head?_filter]
  cases (tree.rows place state).filter
      (fun row => row.triggered .unexpected event) with
  | cons row rest => rfl
  | nil =>
    cases (tree.rows place state).filter
        (fun row => row.anonymous .unexpected) with
    | cons row rest => rfl
    | nil => rfl

theorem exception_arm_eq :
    tree.exception_arm place state =
      (tree.rows place state).filter (·.typed_exception) ++
        (tree.rows place state).filter (·.any_exception) := by
  unfold exception_arm
  dsimp only
  rw [List.filter_filter, List.filter_filter]
  unfold StateTransition.typed_exception StateTransition.any_exception
  simp only [Bool.and_comm]

/-- The generated code tries the candidates from the first one on. -/
theorem candidates_split {cue : Cue E}
    (unexpected : ∀ serial event, cue = .event serial event →
      ∀ row ∈ tree.rows place state, row.triggered .normal event.ident = false) :
    ∃ hidden, tree.candidates place state cue =
        tree.tried place state cue ++ hidden := by
  cases cue with
  | event serial event =>
    have first : tree.tried place state (.event serial event) =
        (tree.candidates place state (.event serial event)).take 1 :=
      dispatch_arm_take (unexpected serial event rfl)
    rw [first]
    exact ⟨_, (List.take_append_drop 1 _).symm⟩
  | completion origin =>
    unfold tried candidates origin_arm
    dsimp only
    split
    · rw [List.map_take]
      exact ⟨_, (List.take_append_drop 1 _).symm⟩
    · exact ⟨[], (List.append_nil _).symm⟩
  | anonymous origin => exact ⟨[], (List.append_nil _).symm⟩
  | error serial error =>
    unfold tried candidates
    dsimp only
    rw [exception_arm_eq]
    exact ⟨[], (List.append_nil _).symm⟩

theorem mem_candidates {cue : Cue E} {item : StateTransition E × Nat}
    (among : item ∈ tree.candidates place state cue) :
    item.1 ∈ tree.rows place state := by
  cases cue with
  | event serial event =>
    obtain ⟨mapping, listed, within⟩ := Flat.mem_first_of among
    simp only [List.mem_cons, List.not_mem_nil, or_false] at listed
    rcases listed with rfl | rfl
    · exact List.mem_of_mem_filter (List.fst_mem_of_mem_zipIdx within)
    · exact List.mem_of_mem_filter (List.fst_mem_of_mem_zipIdx within)
  | completion origin =>
    obtain ⟨row, listed, rfl⟩ := List.mem_map.mp among
    exact List.mem_of_mem_filter listed
  | anonymous origin =>
    obtain ⟨row, listed, rfl⟩ := List.mem_map.mp among
    exact List.mem_of_mem_filter listed
  | error serial error =>
    obtain ⟨row, listed, rfl⟩ := List.mem_map.mp among
    rcases List.mem_append.mp listed with typed | any
    · exact List.mem_of_mem_filter typed
    · exact List.mem_of_mem_filter any

/-- The policy is asked about rows for events only. -/
theorem accepted_of_candidate {cue : Cue E} {item : StateTransition E × Nat}
    (among : item ∈ tree.candidates place state cue)
    (no_event : ∀ serial event, cue ≠ .event serial event) (world : E.World) :
    candidate_dispatch item.1 world item.2 = true := by
  have kind : item.1.event.kind = .completion ∨
      item.1.event.kind = .exception := by
    cases cue with
    | event serial event => exact absurd rfl (no_event serial event)
    | completion origin =>
      obtain ⟨row, listed, rfl⟩ := List.mem_map.mp among
      have triggered := (List.mem_filter.mp listed).2
      simp only [StateTransition.triggered, Bool.and_eq_true,
        decide_eq_true_eq] at triggered
      exact .inl triggered.1.1
    | anonymous origin =>
      obtain ⟨row, listed, rfl⟩ := List.mem_map.mp among
      have anonymous := (List.mem_filter.mp listed).2
      simp only [StateTransition.anonymous, Bool.and_eq_true,
        decide_eq_true_eq] at anonymous
      exact .inl anonymous.1
    | error serial error =>
      obtain ⟨row, listed, rfl⟩ := List.mem_map.mp among
      simp only [List.mem_append, List.mem_filter,
        StateTransition.typed_exception, StateTransition.any_exception,
        Bool.and_eq_true, decide_eq_true_eq] at listed
      rcases listed with ⟨_, kind, _⟩ | ⟨_, kind, _⟩
      · exact .inr kind
      · exact .inr kind
  unfold candidate_dispatch
  rcases kind with kind | kind
  · rw [kind]
  · rw [kind]

section Condition

variable {view : View E} {cue : Cue E} {item : StateTransition E × Nat}

theorem branch_of_listed {matched data : E.Data} {handled : Bool}
    (listed : item.1 ∈ tree.rows place (view.state place).ident) :
    tree.branch_condition place matched data view item handled =
      row_condition item.1 (tree.payload place matched data view item.1)
        view.world item.2 handled := by
  have source := (mem_rows listed).2
  have matching : tree.matches_row place view item.1 = true := by
    simp [matches_row, source]
  unfold branch_condition
  rw [if_pos matching]

/-- Where the policy lets a row through, what is checked is what was declared. -/
theorem row_condition_of_accepted {row : StateTransition E} {payload : Payload E}
    {world : E.World} {index : Nat}
    (accepted : candidate_dispatch row world index = true) :
    row_condition row payload world index false =
      row_enabled row payload world index := by
  unfold row_condition row_enabled
  rw [if_pos accepted, accepted]
  cases row.guard with
  | none => rfl
  | some guard =>
    rw [condition_some]
    rfl

/-- Behind a row that has run, what is left of a condition is the alternatives
behind the first one of its guard. -/
theorem behind_iff {matched data : E.Data} :
    tree.branch_condition place matched data view item true ≠ .ok false ↔
      tree.matches_row place view item.1 = true ∧
        ∃ guard, item.1.guard = some guard ∧
          guard.expression.alternatives (fun name => E.guard name
            (item.1.callback_args
              (tree.payload place matched data view item.1).state_data
              (tree.payload place matched data view item.1).event_data)
            view.world) ≠ .ok false := by
  unfold branch_condition
  by_cases matching : tree.matches_row place view item.1 = true
  · rw [if_pos matching]
    unfold row_condition
    cases item.1.guard with
    | none => simp
    | some guard => simp [condition_some, matching]
  · rw [if_neg matching]
    simp [matching]

end Condition

end Tables

namespace Tree

variable {tree : Tree E} {place : Slot} {calls : Calls E} {core : Core E}

/-- A state that may complete makes all of its rows eligible. -/
theorem eligible_of_finished {view : View E} (inside : place.node < tree.size)
    (finished : tree.child place.node (view.state place).ident = none ∨
      tree.child_terminal view place = true) {row : StateTransition E}
    (listed : row ∈ tree.rows place (view.state place).ident) :
    tree.eligible view place row = true := by
  obtain ⟨declared, source⟩ := Tables.mem_rows listed
  have composite := tree.in_composite place.node inside row declared
  rw [source] at composite
  unfold Tables.eligible
  rcases finished with childless | terminal
  · rw [composite, childless]
    rfl
  · rw [terminal, Bool.or_true]

theorem origin_code_idle {origin : Option (Event E)}
    (without : ∀ event, origin = some event →
      ∀ row ∈ tree.rows place (core.view.state place).ident,
        row.triggered .completion event.ident = false) :
    tree.origin_code calls place origin core = .ok false core := by
  cases origin with
  | none => rfl
  | some event =>
    have nothing : (tree.rows place (core.view.state place).ident).filter
        (fun row => row.triggered .completion event.ident) = [] := by
      rw [List.filter_eq_nil_iff]
      intro row among
      simp [without event rfl row among]
    have empty : tree.origin_arm place (core.view.state place).ident
        event.ident = [] := by
      unfold Tables.origin_arm
      rw [nothing]
      simp
    show tree.run_completions calls place event.data
      (tree.origin_arm place (core.view.state place).ident event.ident) core = _
    rw [empty]
    unfold Tables.run_completions
    rw [get_bind_run]
    simp

/-- In a tree, too, the code goes through the rows that are tried. -/
theorem serve_run {cue : Cue E}
    (due : (Machine.tree tree).due place core.view cue) :
    tree.serve place calls cue core =
      (tree.trial place calls cue core.view).run
        (tree.tried place (core.view.state place).ident cue) core := by
  obtain ⟨inside, asked⟩ := due
  cases cue with
  | event serial event => exact Tables.serve_event serial event
  | completion origin =>
    apply @Tables.run_completions_run _ _ _ _ (.completion origin) _ _ _
      (fun _ _ _ => rfl) rfl
    · intro row among
      exact eligible_of_finished inside asked.2 (Tables.mem_origin_arm among)
    · rfl
  | anonymous origin =>
    have idle := @origin_code_idle _ tree place calls core origin asked.1
    have served : tree.serve place calls (.anonymous origin) core =
        tree.run_completions calls place E.default
          (tree.anonymous_arm place (core.view.state place).ident) core := by
      unfold Tables.serve Tables.completion_code
      dsimp only
      rw [bind_run, idle]
      rfl
    rw [served]
    apply @Tables.run_completions_run _ _ _ _ (.anonymous origin) _ _ _
      (fun _ _ _ => rfl) rfl
    · intro row among
      exact eligible_of_finished inside asked.2 (Tables.mem_anonymous_arm among)
    · rfl
  | error serial error =>
    exact Tables.exception_rows_run serial error _ core.view

end Tree

/-! ### What is run first -/

/-- The record that a row has begun. -/
def began (cause : Cause) (place : Slot) (core : Core E)
    (item : StateTransition E × Nat) : Happening E :=
  .fired cause place item.1 item.2 core.view

theorem began_injective {cause : Cause} {place : Slot} {core : Core E}
    {item other : StateTransition E × Nat}
    (same : began cause place core item = began cause place core other) :
    item = other := by
  unfold began at same
  cases item
  cases other
  cases same
  rfl

theorem raised_not_began {cause : Cause} {place : Slot} (core : Core E)
    (item : StateTransition E × Nat) :
    began cause place core item ≠ .raised cause := by
  intro same
  cases same

/-- A part of the code that only adds to the record. -/
theorem added_of_longer {core core' : Core E} {happening : Happening E}
    (longer : Longer (core.note happening) core') :
    ∃ added, core'.trace = added ++ happening :: core.trace := by
  obtain ⟨added, grown⟩ := longer
  exact ⟨added, grown.symm⟩

namespace Tree

variable {tree : Tree E} {place : Slot} {cue : Cue E} {fuel : Nat}

theorem body_adds (start : View E) (item : StateTransition E × Nat)
    (core : Core E) :
    ∃ added, (final ((tree.trial place ((Machine.tree tree).calls fuel) cue
        start).body item) core).trace =
      added ++ began cue.cause place core item :: core.trace := by
  have nested (event : Event E) :
      Within Longer (((Machine.tree tree).calls fuel).process_event event) :=
    ((longer_steps tree.toTables).keeps id).process_event fuel event
  have row := @Blind.run_row _ tree.toTables _ longer_blind _ nested cue.cause
    place item.1 (tree.payload place (start.state place).data
      (Tables.cue_data cue) core.view item.1)
  exact added_of_longer (row.final (core.note (began cue.cause place core item)))

theorem trial_recorded (start : View E)
    (items : List (StateTransition E × Nat)) (core : Core E) :
    (tree.trial place ((Machine.tree tree).calls fuel) cue start).Recorded
      Core.trace (began cue.cause place) items core where
  marks core := ⟨.raised cue.cause, rfl, raised_not_began core⟩
  begins item _ := body_adds start item core
  again item _ core _ := body_adds start item core
  names _ _ := began_injective

theorem split_of_due {view : View E}
    (due : (Machine.tree tree).due place view cue) :
    ∃ hidden, (Machine.tree tree).candidates place view cue =
      (Machine.tree tree).tried place view cue ++ hidden := by
  apply Tables.candidates_split
  intro serial event same
  subst same
  exact due.2

theorem listed_of_tried {view : View E} {item : StateTransition E × Nat}
    (due : (Machine.tree tree).due place view cue)
    (among : item ∈ (Machine.tree tree).tried place view cue) :
    item ∈ (Machine.tree tree).candidates place view cue := by
  obtain ⟨hidden, split⟩ := split_of_due due
  rw [split]
  exact List.mem_append_left hidden among

/-- A row of an event is checked as it was declared unless it bypasses the
policy. -/
theorem unbypassed_iff {view : View E} {serial : Nat} {event : Event E}
    (due : (Machine.tree tree).due place view (.event serial event)) :
    ¬ (Machine.tree tree).Bypasses place view (.event serial event) ↔
      ∀ item ∈ (Machine.tree tree).tried place view (.event serial event),
        tree.cue_condition place (.event serial event) view view item false =
            .ok true →
          (Machine.tree tree).enabled place view (.event serial event) item =
            .ok true := by
  constructor
  · intro tight item among runs
    obtain ⟨_, ⟨_, enabled⟩ | leaks⟩ := Tables.runs_iff.mp runs
    · exact enabled
    · exact absurd ⟨due, item, among, leaks⟩ tight
  · rintro kept ⟨_, item, among, leaks⟩
    apply Tables.tight_of_enabled (kept item among _) leaks
    exact Tables.runs_iff.mpr ⟨leaks.1, .inr leaks⟩

/-- The other cues do not ask the policy. -/
theorem unbypassed {view : View E}
    (no_event : ∀ serial event, cue ≠ .event serial event) :
    ¬ (Machine.tree tree).Bypasses place view cue := by
  rintro ⟨due, item, among, _, set | rejected, _⟩
  · cases set
  · rw [Tables.accepted_of_candidate (listed_of_tried due among) no_event]
      at rejected
    cases rejected

theorem checked_of_accepted {view : View E} {item : StateTransition E × Nat}
    (due : (Machine.tree tree).due place view cue)
    (no_event : ∀ serial event, cue ≠ .event serial event)
    (among : item ∈ (Machine.tree tree).tried place view cue) :
    tree.cue_condition place cue view view item false =
      (Machine.tree tree).enabled place view cue item := by
  have candidate := listed_of_tried due among
  have listed := Tables.mem_candidates candidate
  have plain : tree.branch_condition place (view.state place).data
      (Tables.cue_data cue) view item false =
        (Machine.tree tree).enabled place view cue item := by
    rw [Tables.branch_of_listed listed]
    exact Tables.row_condition_of_accepted
      (Tables.accepted_of_candidate candidate no_event view.world)
  rw [← plain]
  unfold Tables.cue_condition
  have eligible (finished : (Machine.tree tree).finished place view) :
      ¬ ((tree.node place.node).orthogonal &&
        !tree.eligible view place item.1) = true := by
    rw [eligible_of_finished due.1 finished listed]
    simp
  cases cue with
  | event serial event => rfl
  | completion origin => exact if_neg (eligible due.2.2)
  | anonymous origin => exact if_neg (eligible due.2.2)
  | error serial error => rfl

/-- What is picked is the row that ought to run if and only if that row is among
those that are tried, and none of them bypasses the policy. -/
theorem pick_iff {view : View E} (due : (Machine.tree tree).due place view cue) :
    pick (fun item => tree.cue_condition place cue view view item false)
        ((Machine.tree tree).tried place view cue) =
      (Machine.tree tree).chosen place view cue ↔
    ¬ (Machine.tree tree).Dead place view cue ∧
      ¬ (Machine.tree tree).Bypasses place view cue := by
  obtain ⟨hidden, split⟩ := split_of_due due
  have alive : ¬ (Machine.tree tree).Dead place view cue ↔
      ∀ item, (Machine.tree tree).chosen place view cue = some item →
        item ∈ (Machine.tree tree).tried place view cue := by
    unfold Machine.Dead
    simp [due]
  rw [alive]
  unfold Machine.chosen
  rw [split]
  by_cases no_event : ∀ serial event, cue ≠ .event serial event
  · simp only [unbypassed no_event, not_false_iff, and_true]
    exact pick_eq_iff fun item among => checked_of_accepted due no_event among
  · push Not at no_event
    obtain ⟨serial, event, rfl⟩ := no_event
    rw [unbypassed_iff due]
    apply pick_first_eq_iff
    · have first : (Machine.tree tree).tried place view (.event serial event) =
          ((Machine.tree tree).candidates place view
            (.event serial event)).take 1 :=
        @Tables.dispatch_arm_take _ tree.toTables place _ event.ident serial
          event.data due.2
      rw [first]
      exact List.length_take_le 1 _
    · intro item among enabled
      apply Tables.runs_iff.mpr
      refine ⟨?_, .inl ⟨rfl, enabled⟩⟩
      have source := (Tables.mem_rows
        (Tables.mem_candidates (listed_of_tried due among))).2
      simp [Tables.matches_row, source]

theorem runs_first_iff {core : Core E}
    (due : (Machine.tree tree).due place core.view cue) :
    (Machine.tree tree).RunsFirst place fuel cue core ↔
      (¬ (Machine.tree tree).Dead place core.view cue ∧
        ¬ (Machine.tree tree).Bypasses place core.view cue) ∧
          ¬ (Machine.tree tree).Overruns place fuel cue core := by
  have recorded := @trial_recorded _ tree place cue fuel core.view
    ((Machine.tree tree).candidates place core.view cue) core
  have obeys := @Trial.obeys_iff _ _ _ _ _ _
    ((Machine.tree tree).tried place core.view cue) core _ _ _
    ((Machine.tree tree).chosen place core.view cue) recorded
    (fun item among => listed_of_tried due among)
    (fun item chosen => mem_of_pick chosen)
  have served : (tree.trial place ((Machine.tree tree).calls fuel) cue
      core.view).Obeys (tree.serve place ((Machine.tree tree).calls fuel) cue)
        ((Machine.tree tree).chosen place core.view cue) core ↔
      (tree.trial place ((Machine.tree tree).calls fuel) cue core.view).Obeys
        ((tree.trial place ((Machine.tree tree).calls fuel) cue core.view).run
          ((Machine.tree tree).tried place core.view cue))
        ((Machine.tree tree).chosen place core.view cue) core := by
    unfold Trial.Obeys
    rw [serve_run due]
    rfl
  unfold Machine.RunsFirst Machine.Overruns
  simp only [due, true_implies, true_and]
  rw [← pick_iff due]
  exact served.trans obeys

end Tree

/-! ### Flat machines -/

namespace Flat

variable {flat : Flat E} {place : Slot} {cue : Cue E} {fuel : Nat}

theorem try_rows_run {calls : Calls E} (start : View E)
    (arm : List (StateTransition E × Nat)) (core : Core E) :
    flat.try_rows calls cue.cause (cue_payload cue start) arm core =
      (flat.trial calls cue start).run arm core := by
  have ended (rest : List (StateTransition E × Nat)) (last : Core E) :
      rest.foldlM (flat.trial calls cue start).step true last =
        .ok true last := by
    induction rest with
    | nil => rfl
    | cons item rest ih =>
      rw [Trial.run_cons]
      exact ih
  unfold Trial.run
  induction arm with
  | nil => rfl
  | cons item rest ih =>
    obtain ⟨row, index⟩ := item
    unfold try_rows
    rw [bind_run, transition_code_run, Trial.run_cons]
    have checked : (flat.trial calls cue start).condition core (row, index)
        false = Tables.row_enabled row (cue_payload cue start) core.view.world
          index := rfl
    rw [checked]
    cases Tables.row_enabled row (cue_payload cue start) core.view.world index with
    | error error => rfl
    | ok value =>
      cases value with
      | false => exact ih
      | true =>
        have body : (flat.trial calls cue start).body (row, index) core =
            flat.row_body calls cue.cause row (cue_payload cue start) index
              core := rfl
        dsimp only
        rw [bind_run, bind_run, body]
        cases flat.row_body calls cue.cause row (cue_payload cue start) index
            core with
        | error fault last => rfl
        | ok value last => exact (ended _ last).symm

theorem declared_of_candidate {state : E.Ident} {item : StateTransition E × Nat}
    (among : item ∈ flat.candidates state cue) : flat.Declared state item.1 := by
  cases cue with
  | event serial event =>
    exact @declared_of_first _ flat state
      [fun row => row.triggered .unexpected event.ident,
        fun row => row.anonymous .unexpected] item among
  | completion origin => exact mem_mapping among
  | anonymous origin => exact mem_mapping among
  | error serial error =>
    rcases List.mem_append.mp among with typed | any
    · exact mem_mapping typed
    · exact mem_mapping any

theorem trial_recorded (core : Core E) :
    (flat.trial ((Machine.flat flat).calls fuel) cue core.view).Recorded
      Core.trace (began cue.cause slot)
        (flat.candidates (core.view.state slot).ident cue) core where
  marks core := ⟨.raised cue.cause, rfl, raised_not_began core⟩
  begins item among := by
    have steps : Steps True flat.tables Longer := longer_steps flat.tables
    have nested (event : Event E) :
        Within Longer (((Machine.flat flat).calls fuel).process_event event) :=
      flat_process_event steps fuel event
    obtain ⟨declared, held⟩ := declared_of_candidate among
    have changes := @flat_change _ flat _ steps cue.cause item.1
      (cue_payload cue core.view) declared _
        (running_of_fired cue.cause slot item.1 item.2 core) held
    exact added_of_longer (steps.toQuiet.perform nested changes)
  again _ _ core runs := by cases runs
  names _ _ := began_injective

theorem mapping_nil {state : E.Ident} {shared : StateTransition E → Bool}
    (without : ∀ row ∈ flat.table.rows state, shared row = false) :
    flat.mapping state shared = [] := by
  have nothing : (flat.table.rows state).filter shared = [] := by
    rw [List.filter_eq_nil_iff]
    intro row among
    simp [without row among]
  unfold mapping
  rw [nothing]
  rfl

theorem mapping_ne_nil {state : E.Ident} {shared : StateTransition E → Bool}
    (holds : ∃ row ∈ flat.table.rows state, shared row = true) :
    flat.mapping state shared ≠ [] := by
  obtain ⟨row, among, shares⟩ := holds
  intro nothing
  have empty : (flat.table.rows state).filter shared = [] := by
    simpa [mapping] using nothing
  have inside := List.mem_filter.mpr ⟨among, shares⟩
  rw [empty] at inside
  cases inside

theorem first_of_cons {rows : List (StateTransition E × Nat)}
    {rest : List (List (StateTransition E × Nat))} (some_row : rows ≠ []) :
    first_of (rows :: rest) = rows := by
  cases rows with
  | nil => exact absurd rfl some_row
  | cons row others => rfl

theorem first_of_single (rows : List (StateTransition E × Nat)) :
    first_of [rows] = rows := by
  cases rows <;> rfl

/-- Apart from the rows for errors, the code tries all candidates. -/
theorem tried_of_due {view : View E}
    (due : (Machine.flat flat).due place view cue)
    (no_error : ∀ serial error, cue ≠ .error serial error) :
    (Machine.flat flat).tried place view cue =
      (Machine.flat flat).candidates place view cue := by
  cases cue with
  | event serial event =>
    have normal : flat.mapping (view.state slot).ident
        (fun row => row.triggered .normal event.ident) = [] :=
      mapping_nil due.2
    show flat.dispatch_arm (view.state slot).ident event.ident = _
    unfold dispatch_arm
    rw [normal]
    rfl
  | completion origin => exact first_of_cons (mapping_ne_nil due.2.1)
  | anonymous origin =>
    cases origin with
    | none => rfl
    | some event =>
      have own : flat.mapping (view.state slot).ident
          (fun row => row.triggered .completion event.ident) = [] :=
        mapping_nil (due.2.1 event rfl)
      show flat.completion_arm (view.state slot).ident event.ident = _
      unfold completion_arm
      rw [own]
      exact first_of_single _
  | error serial error => exact absurd rfl (no_error serial error)

theorem split_of_due {view : View E}
    (due : (Machine.flat flat).due place view cue) :
    ∃ hidden, (Machine.flat flat).candidates place view cue =
      (Machine.flat flat).tried place view cue ++ hidden := by
  by_cases no_error : ∀ serial error, cue ≠ .error serial error
  · rw [tried_of_due due no_error]
    exact ⟨[], (List.append_nil _).symm⟩
  · push Not at no_error
    obtain ⟨serial, error, rfl⟩ := no_error
    have arm : flat.exception_arm (view.state slot).ident = first_of
        [flat.mapping (view.state slot).ident (·.typed_exception),
          flat.mapping (view.state slot).ident (·.any_exception)] := rfl
    show ∃ hidden, flat.mapping (view.state slot).ident (·.typed_exception) ++
      flat.mapping (view.state slot).ident (·.any_exception) =
        flat.exception_arm (view.state slot).ident ++ hidden
    rw [arm]
    cases flat.mapping (view.state slot).ident (·.typed_exception) with
    | nil =>
      rw [first_of, first_of_single]
      exact ⟨[], (List.append_nil _).symm⟩
    | cons item rest => exact ⟨_, rfl⟩

/-- In a flat machine only rows for errors can be dead. -/
theorem alive {view : View E}
    (no_error : ∀ serial error, cue ≠ .error serial error) :
    ¬ (Machine.flat flat).Dead place view cue := by
  rintro ⟨due, item, chosen, missing⟩
  apply missing
  rw [tried_of_due due no_error]
  exact mem_of_pick chosen

theorem runs_first_iff {core : Core E}
    (due : (Machine.flat flat).due place core.view cue) :
    (Machine.flat flat).RunsFirst place fuel cue core ↔
      ¬ (Machine.flat flat).Dead place core.view cue := by
  obtain ⟨hidden, split⟩ := split_of_due due
  have inside (item : StateTransition E × Nat)
      (among : item ∈ (Machine.flat flat).tried place core.view cue) :
      item ∈ (Machine.flat flat).candidates place core.view cue := by
    rw [split]
    exact List.mem_append_left hidden among
  have obeys := @Trial.obeys_iff _ _ _ _ _ _
    ((Machine.flat flat).tried place core.view cue) core _ _ _
    ((Machine.flat flat).chosen place core.view cue)
    (@trial_recorded _ flat cue fuel core) inside
    (fun item chosen => mem_of_pick chosen)
  have quiet : ¬ (flat.trial ((Machine.flat flat).calls fuel) cue
      core.view).Overruns ((Machine.flat flat).tried place core.view cue)
        ((Machine.flat flat).chosen place core.view cue) core := by
    rintro ⟨_, _, _, _, later, _, refuses⟩
    exact refuses rfl
  have served : (flat.trial ((Machine.flat flat).calls fuel) cue
      core.view).Obeys (flat.serve ((Machine.flat flat).calls fuel) cue)
        ((Machine.flat flat).chosen place core.view cue) core ↔
      (flat.trial ((Machine.flat flat).calls fuel) cue core.view).Obeys
        ((flat.trial ((Machine.flat flat).calls fuel) cue core.view).run
          ((Machine.flat flat).tried place core.view cue))
        ((Machine.flat flat).chosen place core.view cue) core := by
    unfold Trial.Obeys
    rw [serve_run, try_rows_run]
    rfl
  have picks : pick (fun item => (flat.trial ((Machine.flat flat).calls fuel) cue
      core.view).condition core item false)
        ((Machine.flat flat).tried place core.view cue) =
      (Machine.flat flat).chosen place core.view cue ↔
        ∀ item, (Machine.flat flat).chosen place core.view cue = some item →
          item ∈ (Machine.flat flat).tried place core.view cue := by
    unfold Machine.chosen
    rw [split]
    exact pick_eq_iff fun _ _ => rfl
  unfold Machine.RunsFirst Machine.Dead
  simp only [due, true_implies, true_and, not_exists, not_and, not_not]
  rw [← picks]
  exact served.trans (obeys.trans (and_iff_left quiet))

end Flat

/-! ### All machines -/

/-- An orthogonal table with two rows for one unexpected event. -/
def outranked : Tree sample where
  size := 1
  node _ :=
    { transitions :=
        [{ in_state := plain 0,
           event := { kind := .unexpected, ident := Name.event 0 },
           guard := some (call false), out_state := plain 1 },
         { in_state := plain 0,
           event := { kind := .unexpected, ident := Name.event 0 },
           guard := some (call true), out_state := plain 2 },
         { in_state := plain 3, event := on 1, out_state := plain 4 }]
      regions := [⟨Name.state 0, [0, 1, 2].map Name.state⟩,
        ⟨Name.state 3, [3, 4].map Name.state⟩]
      owner := 0
      variant := Name.X
      depth := 0 }
  size_pos := Nat.one_pos
  root_depth := rfl
  owner_lt i inside positive := by omega
  depth_owner i inside positive := by omega
  regions_pos _ _ := Nat.two_pos
  variants := by decide
  in_composite := by decide
  out_composite := by decide

/-- What the new machine is asked. -/
def outranked_cue : Cue sample := .event 0 ⟨Name.event 0, ()⟩

theorem outranked_due : (Machine.tree outranked).due ⟨0, 0⟩
    ((Machine.tree outranked).new ()).view outranked_cue := by
  refine ⟨Nat.one_pos, ?_⟩
  unfold Machine.asked outranked_cue
  decide

end SmlRs.Macros
