/-
Module: SmlRs.Macros.Selection
Purpose: Which rows of an arm run for one event.
Trusted boundary: none
Main exports: branch_condition, branch_run, row_enabled, RowLeaks, Runs,
  runs_iff, run_arm_cons
-/
import SmlRs.Macros.Machine

namespace SmlRs.Macros

open Lib

variable {E : Environment}

namespace Tables

variable (tree : Tables E)

/-! ### Running one row of an arm -/

/-- What a row of an arm sees as the data of its source. -/
def payload (place : Slot) (matched event_data : E.Data) (view : View E)
    (row : StateTransition E) : Payload E :=
  ⟨if tree.rebinds place row then (view.state place).data else matched,
    event_data⟩

/-- Whether the pattern a row stands behind matches. -/
def matches_row (place : Slot) (view : View E) (row : StateTransition E) :
    Bool :=
  !tree.rebinds place row || (view.state place).ident = row.in_state.ident

/-- The condition under which a row of an arm runs, pattern included. -/
def branch_condition (place : Slot) (matched event_data : E.Data)
    (view : View E) (item : StateTransition E × Nat) (handled : Bool) :
    Except E.Data Bool :=
  if tree.matches_row place view item.1 then
    row_condition item.1 (tree.payload place matched event_data view item.1)
      view.world item.2 handled
  else .ok false

section Branch

variable {tree} {calls : Calls E} {cause : Cause} {place : Slot}
  {matched event_data : E.Data} {core : Core E}
  {row : StateTransition E} {payload : Payload E} {index : Nat} {handled : Bool}

theorem transition_code_run :
    tree.transition_code calls cause place row payload index handled core =
      match row_condition row payload core.view.world index handled with
      | .error error =>
          .error (.guard_failed error) (core.note (.raised cause))
      | .ok false => .ok handled core
      | .ok true =>
          (tree.row_body calls cause place row payload index >>=
            fun _ => pure true) core := by
  unfold transition_code
  rw [get_bind_run, bind_run]
  cases row_condition row payload core.view.world index handled with
  | error error => rfl
  | ok value => cases value <;> rfl

/-- A row of an arm runs where its condition is true, and leaves everything as
it is where it is false. -/
theorem branch_run :
    tree.branch calls cause place matched event_data index row handled core =
      match tree.branch_condition place matched event_data core.view
        (row, index) handled with
      | .error error =>
          .error (.guard_failed error) (core.note (.raised cause))
      | .ok false => .ok handled core
      | .ok true =>
          (tree.row_body calls cause place row
            (tree.payload place matched event_data core.view row) index >>=
              fun _ => pure true) core := by
  unfold branch branch_condition matches_row Tables.payload
  rw [get_bind_run]
  by_cases rebinds : tree.rebinds place row = true
  · by_cases held : (core.view.state place).ident = row.in_state.ident
    · simp [rebinds, held, transition_code_run]
    · simp [rebinds, held]
  · simp [rebinds, transition_code_run]

end Branch

/-! ### The declared condition and the one that is checked -/

/-- Whether the policy accepts a row and its whole declared guard is true. -/
def row_enabled (row : StateTransition E) (payload : Payload E)
    (world : E.World) (index : Nat) : Except E.Data Bool :=
  if candidate_dispatch row world index then
    match row.guard with
    | none => .ok true
    | some guard =>
        guard_value (row.callback_args payload.state_data payload.event_data)
          world guard.expression
  else .ok false

/-- An alternative of the row's guard behind the first one is true while the row
may not run: an earlier row has run, or the policy rejects it. -/
def RowLeaks (row : StateTransition E) (payload : Payload E) (world : E.World)
    (index : Nat) (handled : Bool) : Prop :=
  (handled = true ∨ candidate_dispatch row world index = false) ∧
    ∃ guard, row.guard = some guard ∧
      guard.expression.alternatives (fun name => E.guard name
        (row.callback_args payload.state_data payload.event_data) world) =
          .ok true

section Condition

variable {row : StateTransition E} {payload : Payload E} {world : E.World}
  {index : Nat} {handled : Bool}

theorem row_enabled_of_condition
    (checked : row_condition row payload world index false = .ok false) :
    row_enabled row payload world index = .ok false := by
  unfold row_condition at checked
  unfold row_enabled
  cases guarded : row.guard with
  | none =>
    rw [guarded] at checked
    cases accepted : candidate_dispatch row world index <;> simp_all
  | some guard =>
    rw [guarded] at checked
    cases accepted : candidate_dispatch row world index <;>
      simp_all [condition_some, guard_value]

/-- What is checked is the declared condition, or a leak. -/
theorem row_condition_true_iff :
    row_condition row payload world index handled = .ok true ↔
      handled = false ∧ row_enabled row payload world index = .ok true ∨
        RowLeaks row payload world index handled := by
  unfold row_condition row_enabled RowLeaks
  cases guarded : row.guard with
  | none =>
    cases handled <;> cases candidate_dispatch row world index <;> simp
  | some guard =>
    cases handled <;> cases candidate_dispatch row world index <;>
      simp [condition_some, guard_value]

end Condition

/-! ### The rows of an arm -/

section Arm

variable (place : Slot) (matched event_data : E.Data)

/-- Whether a row of an arm is enabled as it was declared. -/
def enabled (view : View E) (item : StateTransition E × Nat) :
    Except E.Data Bool :=
  row_enabled item.1 (tree.payload place matched event_data view item.1)
    view.world item.2

/-- A row of an arm would run though it may not. -/
def Leaks (view : View E) (item : StateTransition E × Nat) (handled : Bool) :
    Prop :=
  tree.matches_row place view item.1 = true ∧
    RowLeaks item.1 (tree.payload place matched event_data view item.1)
      view.world item.2 handled

/-- The condition of a row is true. -/
def Runs (view : View E) (item : StateTransition E × Nat) (handled : Bool) :
    Prop :=
  tree.branch_condition place matched event_data view item handled = .ok true

/-- The first row of an arm whose condition is true. -/
def pick (view : View E) :
    List (StateTransition E × Nat) → Option (StateTransition E × Nat)
  | [] => none
  | item :: rest =>
      match tree.branch_condition place matched event_data view item false with
      | .ok false => pick view rest
      | .ok true => some item
      | .error _ => none

end Arm

section Arm

variable {tree} {calls : Calls E} {cause : Cause} {place : Slot}
  {matched event_data : E.Data} {core : Core E}
  {item : StateTransition E × Nat} {handled : Bool}

theorem runs_iff {view : View E} :
    tree.Runs place matched event_data view item handled ↔
      tree.matches_row place view item.1 = true ∧
        (handled = false ∧
          tree.enabled place matched event_data view item = .ok true ∨
            tree.Leaks place matched event_data view item handled) := by
  unfold Runs branch_condition Leaks enabled
  by_cases matching : tree.matches_row place view item.1 = true
  · simp [matching, row_condition_true_iff]
  · simp [matching]

theorem run_arm_cons {rest : List (StateTransition E × Nat)} :
    tree.run_arm calls cause place matched event_data (item :: rest) handled
        core =
      match tree.branch_condition place matched event_data core.view item
        handled with
      | .error error =>
          .error (.guard_failed error) (core.note (.raised cause))
      | .ok false =>
          tree.run_arm calls cause place matched event_data rest handled core
      | .ok true =>
          (tree.row_body calls cause place item.1
            (tree.payload place matched event_data core.view item.1) item.2 >>=
              fun _ => tree.run_arm calls cause place matched event_data rest
                true) core := by
  unfold run_arm
  rw [List.foldlM_cons, bind_run, branch_run]
  cases tree.branch_condition place matched event_data core.view item handled with
  | error error => rfl
  | ok value =>
    cases value with
    | false => rfl
    | true =>
      simp only [bind_run]
      cases tree.row_body calls cause place item.1
        (tree.payload place matched event_data core.view item.1) item.2 core <;>
          rfl

variable {arm : List (StateTransition E × Nat)}

theorem run_arm_of_pick_none
    (idle : tree.pick place matched event_data core.view arm = none) :
    tree.run_arm calls cause place matched event_data arm false core =
        .ok false core ∨
      ∃ error, tree.run_arm calls cause place matched event_data arm false core =
        .error (.guard_failed error) (core.note (.raised cause)) := by
  induction arm with
  | nil => exact .inl rfl
  | cons item rest ih =>
    rw [run_arm_cons]
    unfold pick at idle
    split at idle
    · rename_i checked
      rw [checked]
      exact ih idle
    · cases idle
    · rename_i error checked
      rw [checked]
      exact .inr ⟨error, rfl⟩

theorem pick_some_split {view : View E}
    (picked : tree.pick place matched event_data view arm = some item) :
    ∃ front back, arm = front ++ item :: back ∧
      (∀ earlier ∈ front, tree.branch_condition place matched event_data view
        earlier false = .ok false) ∧
      tree.Runs place matched event_data view item false := by
  induction arm with
  | nil => cases picked
  | cons head rest ih =>
    unfold pick at picked
    split at picked
    · rename_i checked
      obtain ⟨front, back, rfl, quiet, runs⟩ := ih picked
      exact ⟨head :: front, back, rfl, by simpa [checked] using quiet, runs⟩
    · rename_i checked
      cases picked
      exact ⟨[], rest, rfl, by simp, checked⟩
    · cases picked

theorem run_arm_of_pick_some
    (picked : tree.pick place matched event_data core.view arm = some item) :
    ∃ back, (∀ later ∈ back, later ∈ arm) ∧
      tree.run_arm calls cause place matched event_data arm false core =
        (tree.row_body calls cause place item.1
          (tree.payload place matched event_data core.view item.1) item.2 >>=
            fun _ => tree.run_arm calls cause place matched event_data back
              true) core := by
  induction arm with
  | nil => cases picked
  | cons head rest ih =>
    rw [run_arm_cons]
    unfold pick at picked
    split at picked
    · rename_i checked
      obtain ⟨back, inside, run⟩ := ih picked
      refine ⟨back, fun later among => by simp [inside later among], ?_⟩
      rw [checked]
      exact run
    · rename_i checked
      cases picked
      exact ⟨rest, fun later among => by simp [among], by rw [checked]⟩
    · cases picked

end Arm

/-! ### One turn -/

/-- The arm of a slot for an event. -/
def arm (place : Slot) (event : Event E) (view : View E) :
    List (StateTransition E × Nat) :=
  tree.dispatch_arm place (view.state place).ident event.ident

section Turn

variable {tree} {calls : Calls E} {serial : Nat} {place : Slot}
  {event : Event E} {core : Core E}

theorem dispatch_code_run :
    tree.dispatch_code calls serial place event core =
      match tree.run_arm calls (.event serial) place
        (core.view.state place).data event.data
        (tree.arm place event core.view) false
        (core.note (.turn serial event place core.view)) with
      | .ok true core' => .ok true (core'.note (.handled serial place))
      | outcome => outcome := by
  unfold dispatch_code
  rw [get_bind_run]
  show (tree.run_arm calls (.event serial) place _ _ _ false >>= _)
    (core.note (.turn serial event place core.view)) = _
  rw [bind_run]
  unfold arm
  cases tree.run_arm calls (.event serial) place (core.view.state place).data
    event.data (tree.dispatch_arm place (core.view.state place).ident
      event.ident) false (core.note (.turn serial event place core.view)) with
  | ok value core' => cases value <;> rfl
  | error error core' => rfl

end Turn

/-! ### The exception rows of a slot -/

/-- The exception row that a slot picks for an error. -/
def exception_pick (place : Slot) (error : E.Data) (view : View E) :
    Option (StateTransition E × Nat) :=
  tree.pick place (view.state place).data error view
    ((tree.exception_arm place (view.state place).ident).map fun row => (row, 0))

section Exception

variable {tree} {calls : Calls E} {serial : Nat} {place : Slot}
  {matched error : E.Data} {core : Core E} {arm : List (StateTransition E)}

/-- Behind a row that has handled the error, none is tried. -/
theorem exception_rows_handled (moved : Bool) :
    arm.foldlM (tree.exception_row calls serial place matched error)
        (some moved) core = .ok (some moved) core := by
  induction arm with
  | nil => rfl
  | cons row rest ih =>
    rw [List.foldlM_cons]
    exact ih

theorem exception_row_run {row : StateTransition E} :
    tree.exception_row calls serial place matched error none row core =
      match tree.branch_condition place matched error core.view (row, 0)
        false with
      | .error fault =>
          .error (.guard_failed fault)
            (core.note (.raised (.exception serial)))
      | .ok false => .ok none core
      | .ok true =>
          (tree.row_body calls (.exception serial) place row
            (tree.payload place matched error core.view row) 0 >>=
              fun _ => pure (some row.exception_row_moves)) core := by
  show (tree.branch calls (.exception serial) place matched error 0 row false >>=
    _) core = _
  rw [bind_run, branch_run]
  cases tree.branch_condition place matched error core.view (row, 0) false with
  | error fault => rfl
  | ok value =>
    cases value with
    | false => rfl
    | true =>
      simp only [bind_run]
      cases tree.row_body calls (.exception serial) place row
        (tree.payload place matched error core.view row) 0 core <;> rfl

theorem exception_rows_cons {row : StateTransition E} :
    (row :: arm).foldlM (tree.exception_row calls serial place matched error)
        none core =
      match tree.branch_condition place matched error core.view (row, 0)
        false with
      | .error fault =>
          .error (.guard_failed fault)
            (core.note (.raised (.exception serial)))
      | .ok false =>
          arm.foldlM (tree.exception_row calls serial place matched error) none
            core
      | .ok true =>
          (tree.row_body calls (.exception serial) place row
            (tree.payload place matched error core.view row) 0 >>=
              fun _ => pure (some row.exception_row_moves)) core := by
  rw [List.foldlM_cons, bind_run, exception_row_run]
  cases tree.branch_condition place matched error core.view (row, 0) false with
  | error fault => rfl
  | ok value =>
    cases value with
    | false => rfl
    | true =>
      simp only [bind_run]
      cases tree.row_body calls (.exception serial) place row
        (tree.payload place matched error core.view row) 0 core with
      | ok value core' => exact exception_rows_handled row.exception_row_moves
      | error fault core' => rfl

theorem exception_rows_of_pick_none
    (idle : tree.pick place matched error core.view
      (arm.map fun row => (row, 0)) = none) :
    arm.foldlM (tree.exception_row calls serial place matched error) none core =
        .ok none core ∨
      ∃ fault, arm.foldlM (tree.exception_row calls serial place matched error)
        none core = .error (.guard_failed fault)
          (core.note (.raised (.exception serial))) := by
  induction arm with
  | nil => exact .inl rfl
  | cons row rest ih =>
    rw [exception_rows_cons]
    rw [List.map_cons] at idle
    unfold pick at idle
    split at idle
    · rename_i checked
      rw [checked]
      exact ih idle
    · cases idle
    · rename_i fault checked
      rw [checked]
      exact .inr ⟨fault, rfl⟩

theorem exception_rows_of_pick_some {item : StateTransition E × Nat}
    (picked : tree.pick place matched error core.view
      (arm.map fun row => (row, 0)) = some item) :
    item.2 = 0 ∧
      arm.foldlM (tree.exception_row calls serial place matched error) none
          core =
        (tree.row_body calls (.exception serial) place item.1
          (tree.payload place matched error core.view item.1) 0 >>=
            fun _ => pure (some item.1.exception_row_moves)) core := by
  induction arm with
  | nil => cases picked
  | cons row rest ih =>
    rw [exception_rows_cons]
    rw [List.map_cons] at picked
    unfold pick at picked
    split at picked
    · rename_i checked
      rw [checked]
      exact ih picked
    · rename_i checked
      cases picked
      rw [checked]
      exact ⟨rfl, rfl⟩
    · cases picked

theorem exception_code_of_pick_none
    (idle : tree.exception_pick place error core.view = none) :
    tree.exception_code calls serial place error core =
        .ok none (core.note (.recovering serial error place core.view)) ∨
      ∃ fault, tree.exception_code calls serial place error core =
        .error (.guard_failed fault)
          ((core.note (.recovering serial error place core.view)).note
            (.raised (.exception serial))) :=
  @exception_rows_of_pick_none _ _ _ _ _ _ _
    (core.note (.recovering serial error place core.view)) _ idle

theorem exception_code_of_pick_some {row : StateTransition E} {index : Nat}
    (picked : tree.exception_pick place error core.view = some (row, index)) :
    index = 0 ∧
      tree.exception_code calls serial place error core =
        (tree.row_body calls (.exception serial) place row
          (tree.payload place (core.view.state place).data error core.view row)
          0 >>= fun _ => pure (some row.exception_row_moves))
            (core.note (.recovering serial error place core.view)) :=
  @exception_rows_of_pick_some _ _ _ _ _ _ _
    (core.note (.recovering serial error place core.view)) _ _ picked

end Exception

end Tables

end SmlRs.Macros
