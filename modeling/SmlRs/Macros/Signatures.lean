/-
Module: SmlRs.Macros.Signatures
Purpose: The check that an action which is used in several rows of a flat table has
  one signature.
Trusted boundary: the order in which a hash map is iterated visits every key once
Main exports: FunctionSignature, validate_action_signatures, table_uses,
  validate_iff, action_reuse_iff
-/
import SmlRs.Lib.Register
import SmlRs.Macros.Parsed
import SmlRs.Macros.Routing

namespace SmlRs.Macros

open Lib

variable {E : Environment} {T A : Type}

/-! ### The check -/

/-- `FunctionSignature`. -/
structure FunctionSignature (T : Type) where
  arguments : List T
  result : Option T
  is_async : Bool
deriving DecidableEq

/-- `FunctionSignature::new`. -/
def FunctionSignature.new (input_data event_data output_data : Option T)
    (is_async : Bool) : FunctionSignature T where
  arguments := input_data.toList ++ event_data.toList
  result := output_data
  is_async := is_async

/-- What the check reads of the identifiers of a table: an action is an `AsyncIdent`
with a name and a mark, and a trigger that names no event has a reserved name. -/
structure Idents (E : Environment) (A : Type) where
  ident : E.Ident → A
  is_async : E.Ident → Bool
  reserved : EventKind → E.Ident

/-- The event of a mapping. -/
def EventKey.event (idents : Idents E A) (key : EventKey E) : E.Ident :=
  match key with
  | (_, some (some event)) => event
  | (kind, _) => idents.reserved kind

/-- The state with the name that a key is written as. Keys of other kinds have a
colon in them. -/
def EventKey.spelled (key : EventKey E) : Option E.Ident :=
  match key with
  | (.normal, some (some event)) => some event
  | _ => none

/-- Why a table is rejected. -/
inductive SignatureError (A : Type) where
  /-- "Action `{}` can only be reused when all input states, events, and output states
  have the same data" -/
  | action (name : A)
  /-- "Eval action `{action}` has incompatible input state or event data" -/
  | eval (name : A)

/-- The signatures of the actions on their first use. -/
abbrev Signatures (T A : Type) := A → Option (FunctionSignature T)

/-- The candidates of a state and a key. -/
def ParsedStateMachine.candidates (sm : ParsedStateMachine E T) (state : E.Ident)
    (key : EventKey E) : List (Candidate E) :=
  match sm.states_events_mapping state with
  | none => []
  | some mappings => mappings key

/-- How the hash maps of the mappings are iterated. -/
structure MapOrder (sm : ParsedStateMachine E T) where
  states : List E.Ident
  events : E.Ident → List (EventKey E)
  candidates_iff : ∀ state key,
    sm.candidates state key ≠ [] ↔ state ∈ states ∧ key ∈ events state

section Check

variable [DecidableEq T] [DecidableEq A] (idents : Idents E A)
  (sm : ParsedStateMachine E T)

/-- The signature of an action is registered on its first use, and it is compared
with the registered one. -/
def check_signature (actions : Signatures T A) (action : A)
    (signature : FunctionSignature T) (error : SignatureError A) :
    Except (SignatureError A) (Signatures T A) :=
  let actions :=
    if (actions action).isNone then Function.update actions action (some signature)
    else actions
  if (actions action).any (· ≠ signature) then .error error else .ok actions

/-- The turn of a candidate in `validate_action_signatures`. -/
def check_transition (in_state_data out_state_data event_data : Option T)
    (actions : Signatures T A) (transition : Candidate E) :
    Except (SignatureError A) (Signatures T A) := do
  let last_action_index := transition.actions.length - 1
  let actions ← transition.actions.zipIdx.foldlM
    (fun actions (action, action_index) =>
      let action_output_data :=
        if action_index = last_action_index then out_state_data else none
      check_signature actions (idents.ident action)
        (.new in_state_data event_data action_output_data (idents.is_async action))
        (.action (idents.ident action))) actions
  transition.eval_actions.foldlM (fun actions eval =>
    check_signature actions (idents.ident eval.action)
      (.new in_state_data event_data none (idents.is_async eval.action))
      (.eval (idents.ident eval.action))) actions

/-- `validate_action_signatures`. The inner maps are keyed by triggers, and the key
is what the data of the target are looked up by. -/
def validate_action_signatures (order : MapOrder sm) :
    Except (SignatureError A) Unit := do
  let _ ← order.states.foldlM (fun actions in_state_name =>
    (order.events in_state_name).foldlM (fun actions key =>
      (sm.candidates in_state_name key).foldlM
        (check_transition idents (sm.state_data in_state_name)
          (key.spelled.bind sm.state_data) (sm.event_data (key.event idents)))
        actions) actions) (fun _ => none)
  pure ()

end Check

/-! ### The uses of actions -/

/-- A use of an action, with the data of the source, of the trigger and of what the
action produces, and with what the check takes for them. -/
structure ActionUse (E : Environment) (T : Type) where
  action : E.Ident
  eval : Bool
  source : Option T
  event : Option T
  produced : Option T
  /-- The data of the event with the name of the trigger. -/
  found : Option T
  /-- The data of the state with the name of the trigger, for the last action. -/
  homonym : Option T

/-- The data of a trigger: those of its event, of an exception its own type. -/
def ParsedRow.trigger_data (sm : ParsedStateMachine E T) (row : ParsedRow E T) :
    Option T :=
  if row.event.wildcard then none
  else
    match row.event.kind with
    | .entry | .exit => none
    | .exception => row.event_type
    | .normal | .unexpected | .completion => sm.event_data row.event.ident

/-- What the last action of an external row produces. -/
def Candidate.output (sm : ParsedStateMachine E T) (candidate : Candidate E) :
    Option T :=
  if candidate.internal_transition then none else sm.state_data candidate.out_state

/-- The uses in a row, in a state that it is written out for. -/
def ParsedRow.action_uses (idents : Idents E A) (sm : ParsedStateMachine E T)
    (row : ParsedRow E T) (state : E.Ident) : List (ActionUse E T) :=
  let use : ActionUse E T :=
    { action := state
      eval := false
      source := sm.state_data state
      event := row.trigger_data sm
      produced := none
      found := sm.event_data (row.event.event_key.event idents)
      homonym := none }
  (row.actions.zipIdx.map fun (action, index) =>
    if index = row.actions.length - 1 then
      { use with
        action := action
        produced := (row.candidate_at state).output sm
        homonym := row.event.event_key.spelled.bind sm.state_data }
    else { use with action := action }) ++
  row.eval_actions.map fun eval => { use with action := eval.action, eval := true }

/-- A use of a table: a row is written out for a state, and behind the rows in front
of it it counts there. -/
def Uses (idents : Idents E A) (sm : ParsedStateMachine E T)
    (transitions : List (ParsedRow E T)) (use : ActionUse E T) : Prop :=
  ∃ front row back, transitions = front ++ row :: back ∧ ∃ state ∈ sm.states,
    row.counts front state row.event.event_key = true ∧
      use ∈ row.action_uses idents sm state

/-! ### The check as a register -/

/-- What is checked: a name with a signature, and the error. -/
structure CheckedUse (T A : Type) where
  action : A
  signature : FunctionSignature T
  error : SignatureError A

/-- What the check makes of a use. -/
def ActionUse.checked (idents : Idents E A) (use : ActionUse E T) :
    CheckedUse T A where
  action := idents.ident use.action
  signature := .new use.source use.found use.homonym (idents.is_async use.action)
  error :=
    if use.eval then .eval (idents.ident use.action)
    else .action (idents.ident use.action)

/-- The uses in a candidate. -/
def Candidate.checked (idents : Idents E A)
    (in_state_data out_state_data event_data : Option T) (transition : Candidate E) :
    List (CheckedUse T A) :=
  (transition.actions.zipIdx.map fun (action, index) =>
    { action := idents.ident action
      signature :=
        .new in_state_data event_data
          (if index = transition.actions.length - 1 then out_state_data else none)
          (idents.is_async action)
      error := .action (idents.ident action) }) ++
  transition.eval_actions.map fun eval =>
    { action := idents.ident eval.action
      signature :=
        .new in_state_data event_data none (idents.is_async eval.action)
      error := .eval (idents.ident eval.action) }

section Register

variable [DecidableEq T] [DecidableEq A] {idents : Idents E A}
  {sm : ParsedStateMachine E T}

def check_use (actions : Signatures T A) (use : CheckedUse T A) :
    Except (SignatureError A) (Signatures T A) :=
  check_signature actions use.action use.signature use.error

theorem check_registers :
    Registers (σ := Signatures T A) CheckedUse.action CheckedUse.signature id
      check_use where
  fresh := by
    intro actions use new
    refine ⟨Function.update actions use.action (some use.signature), ?_, rfl⟩
    have first : actions use.action = none := new
    simp [check_use, check_signature, first]
  again := by
    intro actions use seen
    have first : actions use.action = some use.signature := seen
    simp [check_use, check_signature, first]
  other := by
    intro actions use previous seen differs
    have first : actions use.action = some previous := seen
    refine ⟨use.error, ?_⟩
    simp [check_use, check_signature, first, differs]

theorem check_transition_eq {actions : Signatures T A} {transition : Candidate E}
    {in_state_data out_state_data event_data : Option T} :
    check_transition idents in_state_data out_state_data event_data actions
        transition =
      (transition.checked idents in_state_data out_state_data event_data).foldlM
        check_use actions := by
  unfold Candidate.checked
  rw [List.foldlM_append, List.foldlM_map]
  apply bind_congr
  intro actions
  rw [List.foldlM_map]
  rfl

/-- All that is checked, in the order of the hash maps. -/
def MapOrder.checked (order : MapOrder sm) (idents : Idents E A) :
    List (CheckedUse T A) :=
  order.states.flatMap fun state =>
    (order.events state).flatMap fun key =>
      (sm.candidates state key).flatMap fun transition =>
        transition.checked idents (sm.state_data state)
          (key.spelled.bind sm.state_data) (sm.event_data (key.event idents))

/-- The check accepts exactly when all that is checked under one name has one
signature. -/
theorem validate_iff_alike (order : MapOrder sm) :
    validate_action_signatures idents sm order = .ok () ↔
      Alike CheckedUse.action CheckedUse.signature (order.checked idents) := by
  have loop : Passes (validate_action_signatures idents sm order) ↔
      Passes ((order.checked idents).foldlM check_use fun _ => none) := by
    unfold validate_action_signatures MapOrder.checked
    rw [passes_drop, foldlM_flatMap]
    simp only [foldlM_flatMap, ← check_transition_eq]
  rw [← passes_unit, loop, check_registers.passes_iff]
  exact and_iff_right fits_empty

end Register

/-! ### The uses that are checked -/

section Checked

variable {front rows : List (ParsedRow E T)} {state : E.Ident} {key : EventKey E}
  {candidate : Candidate E} {idents : Idents E A} {sm : ParsedStateMachine E T}

theorem mem_expected :
    candidate ∈ expected state key front rows ↔
      ∃ before row after, rows = before ++ row :: after ∧
        row.counts (front ++ before) state key = true ∧
          candidate = row.candidate_at state := by
  induction rows generalizing front with
  | nil =>
    constructor
    · intro among
      cases among
    · intro split_at
      obtain ⟨before, row, after, split, _⟩ := split_at
      cases before with
      | nil => cases split
      | cons _ _ => cases split
  | cons first rest ih =>
    unfold expected
    rw [List.mem_append, ih]
    constructor
    · intro among
      rcases among with among | ⟨before, row, after, rfl, counts, same⟩
      · by_cases counts : first.counts front state key = true
        · rw [if_pos counts] at among
          refine ⟨[], first, rest, rfl, ?_, List.mem_singleton.mp among⟩
          rw [List.append_nil]
          exact counts
        · rw [if_neg counts] at among
          cases among
      · refine ⟨first :: before, row, after, rfl, ?_, same⟩
        rw [List.append_cons]
        exact counts
    · intro split_at
      obtain ⟨before, row, after, split, counts, same⟩ := split_at
      cases before with
      | nil =>
        cases split
        rw [List.append_nil] at counts
        left
        rw [if_pos counts]
        exact List.mem_singleton.mpr same
      | cons head before =>
        cases split
        rw [List.append_cons] at counts
        exact .inr ⟨before, row, after, rfl, counts, same⟩

/-- The candidate of a row is checked for its uses. -/
theorem checked_eq {row : ParsedRow E T} :
    (row.candidate_at state).checked idents (sm.state_data state)
        (row.event.event_key.spelled.bind sm.state_data)
        (sm.event_data (row.event.event_key.event idents)) =
      (row.action_uses idents sm state).map (ActionUse.checked idents) := by
  unfold Candidate.checked ParsedRow.action_uses
  rw [List.map_append, List.map_map, List.map_map]
  apply congrArg₂
  · apply List.map_congr_left
    intro ⟨action, index⟩ _
    by_cases last : index = row.actions.length - 1
    · simp [ActionUse.checked, ParsedRow.candidate_at, last]
    · simp [ActionUse.checked, ParsedRow.candidate_at, last]
  · rfl

theorem key_of_counts {row : ParsedRow E T}
    (counts : row.counts front state key = true) : row.event.event_key = key := by
  by_contra other
  rw [counts_of_key other] at counts
  cases counts

variable {lifetimes : T → Bool} {iteration : Iteration E}
  {transitions : List (ParsedRow E T)} [DecidableEq T]

theorem candidates_eq
    (accepted : ParsedStateMachine.new lifetimes iteration transitions = .ok sm) :
    sm.candidates state key =
      if state ∈ sm.states then expected state key [] transitions else [] := by
  have mapping :=
    ((expansion_exact lifetimes iteration transitions).1 sm accepted).2 state
  unfold ParsedStateMachine.candidates
  rw [mapping]
  by_cases known : state ∈ sm.states
  · rw [if_pos known, if_pos known]
  · rw [if_neg known, if_neg known]

/-- An order of the hash maps: each table has one. -/
def table_order
    (accepted : ParsedStateMachine.new lifetimes iteration transitions = .ok sm) :
    MapOrder sm where
  states := sm.states
  events state := (transitions.map (·.event.event_key)).filter fun key =>
    !(expected state key [] transitions).isEmpty
  candidates_iff state key := by
    rw [candidates_eq accepted]
    by_cases known : state ∈ sm.states
    · rw [if_pos known, and_iff_right known, List.mem_filter]
      constructor
      · intro nonempty
        obtain ⟨candidate, among⟩ := List.exists_mem_of_ne_nil _ nonempty
        obtain ⟨_, row, _, rfl, counts, _⟩ := mem_expected.mp among
        cases key_of_counts counts
        refine ⟨List.mem_map_of_mem (List.mem_append_right _ List.mem_cons_self), ?_⟩
        simpa using nonempty
      · intro ⟨_, nonempty⟩ none
        rw [none] at nonempty
        cases nonempty
    · rw [if_neg known]
      simp [known]

/-- The uses of a table are checked, and nothing else is. -/
theorem mem_checked {use : CheckedUse T A} [DecidableEq A]
    (accepted : ParsedStateMachine.new lifetimes iteration transitions = .ok sm)
    (order : MapOrder sm) :
    use ∈ order.checked idents ↔
      ∃ declared, Uses idents sm transitions declared ∧
        use = declared.checked idents := by
  unfold MapOrder.checked Uses
  simp only [List.mem_flatMap]
  constructor
  · intro ⟨state, _, key, _, candidate, among, checked⟩
    rw [candidates_eq accepted] at among
    by_cases known : state ∈ sm.states
    · rw [if_pos known] at among
      obtain ⟨front, row, back, split, counts, rfl⟩ := mem_expected.mp among
      rw [List.nil_append] at counts
      cases key_of_counts counts
      rw [checked_eq] at checked
      obtain ⟨declared, used, rfl⟩ := List.mem_map.mp checked
      exact ⟨declared, ⟨front, row, back, split, state, known, counts, used⟩, rfl⟩
    · rw [if_neg known] at among
      cases among
  · intro ⟨declared, ⟨front, row, back, split, state, known, counts, used⟩, same⟩
    have among : row.candidate_at state ∈
        sm.candidates state row.event.event_key := by
      rw [candidates_eq accepted, if_pos known]
      exact mem_expected.mpr ⟨front, row, back, split, counts, rfl⟩
    obtain ⟨visited, keyed⟩ :=
      (order.candidates_iff _ _).mp (List.ne_nil_of_mem among)
    refine ⟨state, visited, row.event.event_key, keyed, _, among, ?_⟩
    rw [checked_eq, same]
    exact List.mem_map_of_mem used

end Checked

/-! ### When the check does what it is for -/

section Reuse

variable (idents : Idents E A) (sm : ParsedStateMachine E T)
  (transitions : List (ParsedRow E T))

/-- Two uses of a table that are of one action. -/
def Reused (first second : ActionUse E T) : Prop :=
  Uses idents sm transitions first ∧ Uses idents sm transitions second ∧
    idents.ident first.action = idents.ident second.action

/-- The uses of an action agree on the data of the source, of the trigger and of what
the action produces, and on whether it is asynchronous. -/
def Agreeing : Prop :=
  ∀ first second, Reused idents sm transitions first second →
    first.source = second.source ∧ first.event = second.event ∧
      first.produced = second.produced ∧
      idents.is_async first.action = idents.is_async second.action

/-- The types that are present, of the source and of the event with the name of the
trigger. -/
def ActionUse.present (use : ActionUse E T) : List T :=
  use.source.toList ++ use.found.toList

/-- An action has uses that differ in plain view: one is asynchronous and the other
is not, or they differ in their arguments, and so do the types that are present. -/
def Plain : Prop :=
  ∃ first second, Reused idents sm transitions first second ∧
    (idents.is_async first.action ≠ idents.is_async second.action ∨
      (first.source, first.event) ≠ (second.source, second.event) ∧
        first.present ≠ second.present)

/-- An action has uses that differ in their arguments or in what they produce. -/
def Differing : Prop :=
  ∃ first second, Reused idents sm transitions first second ∧
    ((first.source, first.event) ≠ (second.source, second.event) ∨
      first.produced ≠ second.produced)

/-- An action has uses of which other types are present, or with triggers that have
the names of states with different data. -/
def Homonyms : Prop :=
  ∃ first second, Reused idents sm transitions first second ∧
    (first.present ≠ second.present ∨ first.homonym ≠ second.homonym)

end Reuse

section Exact

variable {idents : Idents E A} {sm : ParsedStateMachine E T}
  {transitions : List (ParsedRow E T)}

theorem signature_eq_iff {first second : ActionUse E T} :
    (first.checked idents).signature = (second.checked idents).signature ↔
      first.present = second.present ∧ first.homonym = second.homonym ∧
        idents.is_async first.action = idents.is_async second.action := by
  unfold ActionUse.checked FunctionSignature.new ActionUse.present
  rw [FunctionSignature.mk.injEq]

theorem Plain.disagreeing (differ : Plain idents sm transitions) :
    ¬Agreeing idents sm transitions := by
  intro agree
  obtain ⟨first, second, reused, differ⟩ := differ
  obtain ⟨source, event, _, same⟩ := agree first second reused
  rcases differ with marks | ⟨arguments, _⟩
  · exact marks same
  · exact arguments (Prod.ext source event)

theorem same_mark (alike : ¬Plain idents sm transitions)
    {first second : ActionUse E T}
    (reused : Reused idents sm transitions first second) :
    idents.is_async first.action = idents.is_async second.action := by
  by_contra marks
  exact alike ⟨first, second, reused, .inl marks⟩

theorem agreeing_iff (alike : ¬Plain idents sm transitions) :
    Agreeing idents sm transitions ↔ ¬Differing idents sm transitions := by
  constructor
  · intro agree ⟨first, second, reused, differ⟩
    obtain ⟨source, event, produced, _⟩ := agree first second reused
    rcases differ with arguments | output
    · exact arguments (Prod.ext source event)
    · exact output produced
  · intro same first second reused
    have arguments : (first.source, first.event) = (second.source, second.event) := by
      by_contra differ
      exact same ⟨first, second, reused, .inl differ⟩
    have produced : first.produced = second.produced := by
      by_contra differ
      exact same ⟨first, second, reused, .inr differ⟩
    exact ⟨congrArg Prod.fst arguments, congrArg Prod.snd arguments, produced,
      same_mark alike reused⟩

variable [DecidableEq T] [DecidableEq A] {lifetimes : T → Bool}
  {iteration : Iteration E}

/-- The check accepts a table exactly when the uses of each action have one
signature. -/
theorem validate_iff
    (accepted : ParsedStateMachine.new lifetimes iteration transitions = .ok sm)
    (order : MapOrder sm) :
    validate_action_signatures idents sm order = .ok () ↔
      ∀ first second, Reused idents sm transitions first second →
        first.present = second.present ∧ first.homonym = second.homonym ∧
          idents.is_async first.action = idents.is_async second.action := by
  rw [validate_iff_alike]
  constructor
  · intro alike first second ⟨used, used', same⟩
    rw [← signature_eq_iff]
    apply alike _ _ _ _ same
    · exact (mem_checked accepted order).mpr ⟨first, used, rfl⟩
    · exact (mem_checked accepted order).mpr ⟨second, used', rfl⟩
  · intro agree use among other also same
    obtain ⟨first, used, rfl⟩ := (mem_checked accepted order).mp among
    obtain ⟨second, used', rfl⟩ := (mem_checked accepted order).mp also
    exact signature_eq_iff.mpr (agree first second ⟨used, used', same⟩)

theorem Plain.refused
    (accepted : ParsedStateMachine.new lifetimes iteration transitions = .ok sm)
    (order : MapOrder sm) (differ : Plain idents sm transitions) :
    ¬validate_action_signatures idents sm order = .ok () := by
  rw [validate_iff accepted order]
  intro agree
  obtain ⟨first, second, reused, differ⟩ := differ
  obtain ⟨present, _, same⟩ := agree first second reused
  rcases differ with marks | ⟨_, shown⟩
  · exact marks same
  · exact shown present

theorem validate_iff_homonyms
    (accepted : ParsedStateMachine.new lifetimes iteration transitions = .ok sm)
    (order : MapOrder sm) (alike : ¬Plain idents sm transitions) :
    validate_action_signatures idents sm order = .ok () ↔
      ¬Homonyms idents sm transitions := by
  rw [validate_iff accepted order]
  constructor
  · intro agree ⟨first, second, reused, differ⟩
    obtain ⟨present, homonym, _⟩ := agree first second reused
    rcases differ with shown | spelled
    · exact shown present
    · exact spelled homonym
  · intro same first second reused
    have present : first.present = second.present := by
      by_contra differ
      exact same ⟨first, second, reused, .inl differ⟩
    have homonym : first.homonym = second.homonym := by
      by_contra differ
      exact same ⟨first, second, reused, .inr differ⟩
    exact ⟨present, homonym, same_mark alike reused⟩

end Exact

/-- A row that makes data of a type. -/
def making (start : Bool) (number target data_type : Nat) : ParsedRow sample Nat where
  in_state := { ident := Name.state 0, start := start }
  event := on number
  actions := [Name.acts]
  out_state := { ident := Name.state target, data_type := some data_type }

/-- An action makes the data of two states, of different types. -/
def two_products : List (ParsedRow sample Nat) :=
  [making true 0 1 8, making false 1 2 16]

def sample_idents : Idents sample Name where
  ident name := name
  is_async _ := false
  reserved _ := Name.X

def in_order : Iteration sample where
  order states := states
  perm _ := .rfl

theorem two_products_parsed :
    ∃ sm, ParsedStateMachine.new (fun _ => true) in_order two_products = .ok sm ∧
      sm.states = [Name.state 2, .state 1, .state 0] ∧
      sm.state_data = Function.update (Function.update (fun _ => none)
        (Name.state 1) (some 8)) (Name.state 2) (some 16) ∧
      sm.event_data = fun _ => none :=
  ⟨_, rfl, rfl, rfl, rfl⟩

/-- A use of the action that makes data of a type. -/
def product (data_type : Nat) : ActionUse sample Nat where
  action := Name.acts
  eval := false
  source := none
  event := none
  produced := some data_type
  found := none
  homonym := none

section Products

variable {sm : ParsedStateMachine sample Nat} {use : ActionUse sample Nat}
  (known : sm.states = [Name.state 2, .state 1, .state 0])
  (data : sm.state_data = Function.update (Function.update (fun _ => none)
    (Name.state 1) (some 8)) (Name.state 2) (some 16))
  (events : sm.event_data = fun _ => none)

include data events

omit data events in
theorem making_counts {start : Bool} {number target data_type : Nat}
    {front : List (ParsedRow sample Nat)} {state : Name} {key : EventKey sample}
    (counts : (making start number target data_type).counts front state key = true) :
    state = Name.state 0 := by
  unfold ParsedRow.counts ParsedRow.is_for at counts
  simp only [Bool.and_eq_true, Bool.or_eq_true, decide_eq_true_eq] at counts
  rcases counts.1.1 with wild | same
  · cases wild
  · exact same.symm

theorem making_uses (start : Bool) (number target data_type : Nat)
    (made : sm.state_data (Name.state target) = some data_type) :
    (making start number target data_type).action_uses sample_idents sm
      (Name.state 0) = [product data_type] := by
  have source : sm.state_data (Name.state 0) = none := by
    rw [data]
    rfl
  have spelled : sm.state_data (Name.event number) = none := by
    rw [data]
    rfl
  have found : sm.event_data (Name.event number) = none := by
    rw [events]
  calc
    _ = [{ action := Name.acts
           eval := false
           source := sm.state_data (Name.state 0)
           event := sm.event_data (Name.event number)
           produced := sm.state_data (Name.state target)
           found := sm.event_data (Name.event number)
           homonym := sm.state_data (Name.event number) }] := rfl
    _ = [product data_type] := by
      rw [source, spelled, found, made]
      rfl

theorem first_made :
    (making true 0 1 8).action_uses sample_idents sm (Name.state 0) =
      [product 8] := by
  apply making_uses data events
  rw [data]
  rfl

theorem second_made :
    (making false 1 2 16).action_uses sample_idents sm (Name.state 0) =
      [product 16] := by
  apply making_uses data events
  rw [data]
  rfl

/-- The table uses the action twice. -/
theorem two_products_uses (used : Uses sample_idents sm two_products use) :
    use = product 8 ∨ use = product 16 := by
  obtain ⟨front, row, back, split, state, _, counts, used⟩ := used
  have among : row ∈ two_products := by
    rw [split]
    exact List.mem_append_right _ List.mem_cons_self
  rcases List.mem_cons.mp among with rfl | among
  · rw [making_counts counts, first_made data events] at used
    exact .inl (List.mem_singleton.mp used)
  · cases List.mem_singleton.mp among
    rw [making_counts counts, second_made data events] at used
    exact .inr (List.mem_singleton.mp used)

include known

theorem two_products_used :
    Uses sample_idents sm two_products (product 8) ∧
      Uses sample_idents sm two_products (product 16) := by
  have placed : Name.state 0 ∈ sm.states := by
    rw [known]
    exact List.mem_cons_of_mem _ (List.mem_cons_of_mem _ List.mem_cons_self)
  constructor
  · refine ⟨[], _, _, rfl, Name.state 0, placed, rfl, ?_⟩
    rw [first_made data events]
    exact List.mem_cons_self
  · refine ⟨[making true 0 1 8], _, _, rfl, Name.state 0, placed, rfl, ?_⟩
    rw [second_made data events]
    exact List.mem_cons_self

theorem two_products_disagree : ¬Agreeing sample_idents sm two_products := by
  intro agree
  obtain ⟨used, used'⟩ := two_products_used known data events
  obtain ⟨_, _, produced, _⟩ := agree _ _ ⟨used, used', rfl⟩
  cases produced

omit known in
theorem two_products_valid
    (accepted : ParsedStateMachine.new (fun _ => true) in_order two_products = .ok sm)
    (order : MapOrder sm) :
    validate_action_signatures sample_idents sm order = .ok () := by
  rw [validate_iff accepted]
  intro first second ⟨used, used', _⟩
  rcases two_products_uses data events used with rfl | rfl <;>
    rcases two_products_uses data events used' with rfl | rfl <;>
      exact ⟨rfl, rfl, rfl⟩

end Products

end SmlRs.Macros
