/-
Module: SmlRs.Macros.Parsed
Purpose: How the parser of flat tables collects states and expands the rows from
  `_` over its hash maps.
Trusted boundary: the order in which a hash map is iterated visits every key once
Main exports: ParsedRow, add_transition, ParsedStateMachine.new, Iteration,
  expected, expansion_exact
-/
import Mathlib.Data.List.Induction
import Mathlib.Data.List.Perm.Basic
import SmlRs.Macros.Wildcards

namespace SmlRs.Macros

variable {E : Environment} {T : Type}

/-! ### Rows as they are parsed -/

/-- `InputState`. -/
structure InputState (E : Environment) (T : Type) where
  ident : E.Ident
  start : Bool := false
  wildcard : Bool := false
  data_type : Option T := none

/-- `OutputState`. -/
structure OutputState (E : Environment) (T : Type) where
  ident : E.Ident
  internal_transition : Bool := false
  data_type : Option T := none
  composite : Bool := false

/-- `StateTransition` of the parser, with the types that it names. `actions` is the
first action with the additional ones behind it. -/
structure ParsedRow (E : Environment) (T : Type) where
  in_state : InputState E T
  event : Trigger E
  event_type : Option T := none
  guard : Option (Guard E.Ident) := none
  actions : List E.Ident := []
  eval_actions : List (EvalAction E) := []
  process_events : List (Event E) := []
  defer : Bool := false
  out_state : OutputState E T
  internal_transition : Bool := false

/-- `Transition`: a candidate of a mapping. -/
structure Candidate (E : Environment) where
  guard : Option (Guard E.Ident)
  actions : List E.Ident
  eval_actions : List (EvalAction E)
  process_events : List (Event E)
  defer : Bool
  default_output : Bool
  out_state : E.Ident
  internal_transition : Bool

/-- The keys of the events of a mapping. -/
abbrev EventKey (E : Environment) := EventKind × Option (Option E.Ident)

/-- `event_key`. -/
def Trigger.event_key (event : Trigger E) : EventKey E :=
  match event.kind with
  | .entry => (.entry, none)
  | .exit => (.exit, none)
  | .normal => (.normal, some (some event.ident))
  | kind => (kind, some (if event.wildcard then none else some event.ident))

namespace ParsedRow

variable (row : ParsedRow E T)

def candidate : Candidate E where
  guard := row.guard
  actions := row.actions
  eval_actions := row.eval_actions
  process_events := row.process_events
  defer := row.defer
  default_output := row.out_state.composite
  out_state := row.out_state.ident
  internal_transition := row.internal_transition

/-- An internal row that is no wildcard has its source as its target. -/
def derive_out_state : ParsedRow E T :=
  if row.out_state.internal_transition && !row.in_state.wildcard then
    { row with
      out_state :=
        { row.out_state with
          ident := row.in_state.ident
          data_type := row.in_state.data_type
          internal_transition := false } }
  else row

/-- The `wildcard_transition` for a state with its data. -/
def wildcard_transition (state : E.Ident) (data_type : Option T) :
    ParsedRow E T :=
  { row with
    in_state := { ident := state, data_type := data_type }
    out_state :=
      if row.out_state.internal_transition then
        { row.out_state with ident := state, data_type := data_type }
      else row.out_state }

end ParsedRow

/-! ### Collecting states and events -/

/-- Why a table is rejected. -/
inductive ParseError (E : Environment) where
  /-- "No starting state defined, indicate the starting state with a *." -/
  | no_start
  /-- "More than one starting state defined (indicated with *), remove
  duplicates." -/
  | more_starts
  /-- "This event's type {} does not match its previous definition". -/
  | type_mismatch (key : E.Ident)
  /-- The type has a lifetime that cannot be collected. -/
  | lifetimes
  /-- "transition source state is missing from the parsed state table". -/
  | missing_source
  /-- "This state has data associated, but not action is define here to provide
  it." -/
  | no_data_action
  /-- "Wildcard has no effect". -/
  | no_effect

/-- `DataDefinitions::collect`, given for which types `Lifetimes::from_type`
succeeds. -/
def collect [DecidableEq T] (lifetimes : T → Bool) (types : E.Ident → Option T)
    (key : E.Ident) (data_type : Option T) :
    Except (ParseError E) (E.Ident → Option T) :=
  match types key, data_type with
  | some _, none => .error (.type_mismatch key)
  | some previous, some data_type =>
      if previous ≠ data_type then .error (.type_mismatch key)
      else if lifetimes data_type then
        .ok (Function.update types key (some data_type))
      else .error .lifetimes
  | none, some data_type =>
      if lifetimes data_type then
        .ok (Function.update types key (some data_type))
      else .error .lifetimes
  | none, none => .ok types

/-- The mappings of the states: for each event the candidates, of which a mapping
that exists has one at least. -/
abbrev TransitionMap (E : Environment) :=
  E.Ident → Option (EventKey E → List (Candidate E))

/-- What the first loop over the rows collects. -/
structure Collected (E : Environment) (T : Type) where
  states : List E.Ident := []
  state_data : E.Ident → Option T := fun _ => none
  events : List E.Ident := []
  event_data : E.Ident → Option T := fun _ => none
  states_events_mapping : TransitionMap E := fun _ => none

section Collect

variable [DecidableEq T] (lifetimes : T → Bool)

def Collected.add_state (collected : Collected E T) (state : E.Ident)
    (data_type : Option T) : Except (ParseError E) (Collected E T) := do
  let state_data ← collect lifetimes collected.state_data state data_type
  pure
    { collected with
      states := collected.states.insert state
      state_data := state_data
      states_events_mapping :=
        Function.update collected.states_events_mapping state (some fun _ => []) }

/-- Whether the name of an event is collected. -/
def Trigger.collects (event : Trigger E) : Bool :=
  !event.wildcard &&
    match event.kind with
    | .entry | .exit | .exception => false
    | .normal | .unexpected | .completion => true

def Collected.add_event (collected : Collected E T) (row : ParsedRow E T) :
    Except (ParseError E) (Collected E T) := do
  let event_data ←
    if row.event.kind ≠ .completion || row.event_type.isSome then
      collect lifetimes collected.event_data row.event.ident row.event_type
    else pure collected.event_data
  pure
    { collected with
      events := collected.events.insert row.event.ident
      event_data := event_data }

/-- A turn of the first loop over the rows. -/
def Collected.add_row (collected : Collected E T) (row : ParsedRow E T) :
    Except (ParseError E) (Collected E T) := do
  let collected ←
    if row.in_state.wildcard then pure collected
    else collected.add_state lifetimes row.in_state.ident row.in_state.data_type
  let collected ←
    if row.out_state.internal_transition then pure collected
    else collected.add_state lifetimes row.out_state.ident row.out_state.data_type
  if row.event.collects then collected.add_event lifetimes row
  else pure collected

end Collect

/-! ### Filling the mappings -/

/-- `add_transition`. -/
def add_transition (state_data : E.Ident → Option T)
    (transition_map : TransitionMap E) (row : ParsedRow E T) :
    Except (ParseError E) (TransitionMap E) :=
  match transition_map row.in_state.ident with
  | none => .error .missing_source
  | some mappings =>
      let key := row.event.event_key
      if (state_data row.out_state.ident).isSome && row.actions.isEmpty &&
          !row.out_state.composite then .error .no_data_action
      else
        .ok (Function.update transition_map row.in_state.ident
          (some (Function.update mappings key (mappings key ++ [row.candidate]))))

/-- A turn of the loop over the states for a row from `_`. -/
def add_wildcard (state_data : E.Ident → Option T) (row : ParsedRow E T)
    (locals : TransitionMap E × Bool) (state : E.Ident) :
    Except (ParseError E) (TransitionMap E × Bool) :=
  match locals.1 state with
  | none => .error .missing_source
  | some mappings =>
      if (mappings row.event.event_key).isEmpty then do
        let transition_map ← add_transition state_data locals.1
          (row.wildcard_transition state (state_data state))
        pure (transition_map, true)
      else pure locals

/-- A turn of the second loop over the rows, with the order in which the states are
iterated. -/
def fill (state_data : E.Ident → Option T) (order : List E.Ident)
    (transition_map : TransitionMap E) (row : ParsedRow E T) :
    Except (ParseError E) (TransitionMap E) :=
  if row.in_state.wildcard then do
    let (transition_map, transition_added) ←
      order.foldlM (add_wildcard state_data row) (transition_map, false)
    if transition_added then pure transition_map else throw .no_effect
  else add_transition state_data transition_map row

structure ParsedStateMachine (E : Environment) (T : Type) where
  starting_state : E.Ident
  states : List E.Ident
  state_data : E.Ident → Option T
  events : List E.Ident
  event_data : E.Ident → Option T
  states_events_mapping : TransitionMap E

/-- How the hash map of the states is iterated. -/
structure Iteration (E : Environment) where
  order : List E.Ident → List E.Ident
  perm : ∀ states, (order states).Perm states

/-- The starting state of a table. -/
def find_start (rows : List (ParsedRow E T)) : Except (ParseError E) E.Ident :=
  match rows.filter (·.in_state.start) with
  | [] => .error .no_start
  | [row] => .ok row.in_state.ident
  | _ :: _ :: _ => .error .more_starts

/-- `ParsedStateMachine::new`, behind the checks that read no hash map. -/
def ParsedStateMachine.new [DecidableEq T] (lifetimes : T → Bool)
    (iteration : Iteration E) (transitions : List (ParsedRow E T)) :
    Except (ParseError E) (ParsedStateMachine E T) := do
  let rows := transitions.map ParsedRow.derive_out_state
  let starting_state ← find_start rows
  let collected ← rows.foldlM (Collected.add_row lifetimes) {}
  let states_events_mapping ←
    rows.foldlM (fill collected.state_data (iteration.order collected.states))
      collected.states_events_mapping
  pure
    { starting_state := starting_state
      states := collected.states
      state_data := collected.state_data
      events := collected.events
      event_data := collected.event_data
      states_events_mapping := states_events_mapping }

/-! ### What the mappings should hold -/

namespace ParsedRow

variable (row : ParsedRow E T)

/-- Whether a row, explicit or from `_`, has a state and a trigger. -/
def is_for (state : E.Ident) (key : EventKey E) : Bool :=
  (row.in_state.wildcard || row.in_state.ident = state) &&
    row.event.event_key = key

/-- A row as a candidate of a state: an internal row leads back to the state. -/
def candidate_at (state : E.Ident) : Candidate E where
  guard := row.guard
  actions := row.actions
  eval_actions := row.eval_actions
  process_events := row.process_events
  defer := row.defer
  default_output := row.out_state.composite
  out_state :=
    if row.out_state.internal_transition then state else row.out_state.ident
  internal_transition := row.internal_transition

/-- A row behind others is a candidate of its state, or it is from `_` and none of
the others has the state and the trigger. -/
def counts (front : List (ParsedRow E T)) (state : E.Ident) (key : EventKey E) :
    Bool :=
  row.is_for state key &&
    !(row.in_state.wildcard && front.any (·.is_for state key))

end ParsedRow

/-- The candidates of a state and a trigger among some rows behind others. -/
def expected (state : E.Ident) (key : EventKey E) :
    List (ParsedRow E T) → List (ParsedRow E T) → List (Candidate E)
  | _, [] => []
  | front, row :: rest =>
      (if row.counts front state key then [row.candidate_at state] else []) ++
        expected state key (front ++ [row]) rest

/-! ### What is expected -/

section Expected

variable {front rows : List (ParsedRow E T)} {row : ParsedRow E T}
  {state : E.Ident} {key : EventKey E}

theorem expected_snoc :
    expected state key front (rows ++ [row]) =
      expected state key front rows ++
        if row.counts (front ++ rows) state key then [row.candidate_at state]
        else [] := by
  induction rows generalizing front with
  | nil => simp [expected]
  | cons first rest ih =>
    simp only [List.cons_append, expected, ih, List.append_assoc,
      List.nil_append]

theorem isEmpty_append {α : Type} (first second : List α) :
    (first ++ second).isEmpty = (first.isEmpty && second.isEmpty) := by
  cases first <;> rfl

/-- A trigger has a candidate as soon as a row has it. -/
theorem expected_isEmpty :
    (expected state key [] rows).isEmpty = !rows.any (·.is_for state key) := by
  induction rows using List.reverseRecOn with
  | nil => rfl
  | append_singleton rows row ih =>
    rw [expected_snoc, isEmpty_append, ih, List.any_append, List.nil_append,
      List.any_cons, List.any_nil]
    unfold ParsedRow.counts
    cases row.is_for state key <;> cases row.in_state.wildcard <;>
      cases rows.any (·.is_for state key) <;> rfl

theorem counts_of_key (other : row.event.event_key ≠ key) :
    row.counts front state key = false := by
  simp [ParsedRow.counts, ParsedRow.is_for, other]

end Expected

/-! ### The second loop -/

section Fill

variable {state_data : E.Ident → Option T} {row : ParsedRow E T}
  {map : TransitionMap E}

/-- A row leads to a state with data and has no action that makes them. -/
def refused (state_data : E.Ident → Option T) (row : ParsedRow E T) : Bool :=
  (state_data row.out_state.ident).isSome && row.actions.isEmpty &&
    !row.out_state.composite

/-- Whether a row from `_` is added to a state. -/
def opened (map : TransitionMap E) (row : ParsedRow E T) (state : E.Ident) : Bool :=
  (map state).any fun mappings => (mappings row.event.event_key).isEmpty

/-- The mappings with a row from `_` added to the states of a list. -/
def spread (map : TransitionMap E) (row : ParsedRow E T) (states : List E.Ident) :
    TransitionMap E := fun state =>
  if state ∈ states then
    (map state).map fun mappings =>
      if (mappings row.event.event_key).isEmpty then
        Function.update mappings row.event.event_key [row.candidate_at state]
      else mappings
  else map state

theorem candidate_wildcard (state : E.Ident) (data_type : Option T) :
    (row.wildcard_transition state data_type).candidate =
      row.candidate_at state := by
  unfold ParsedRow.wildcard_transition ParsedRow.candidate ParsedRow.candidate_at
  cases row.out_state.internal_transition <;> rfl

theorem add_wildcard_run {state : E.Ident}
    {mappings : EventKey E → List (Candidate E)} (held : map state = some mappings)
    (added : Bool) :
    add_wildcard state_data row (map, added) state =
      if opened map row state then
        if refused state_data (row.wildcard_transition state (state_data state)) then
          .error .no_data_action
        else .ok (spread map row [state], true)
      else .ok (map, added) := by
  unfold add_wildcard opened
  simp only [held, Option.any_some]
  cases empty : (mappings row.event.event_key).isEmpty with
  | false => rfl
  | true =>
    have none_yet := List.isEmpty_iff.mp empty
    have same : Function.update map state (some (Function.update mappings
        row.event.event_key (mappings row.event.event_key ++
          [row.candidate_at state]))) = spread map row [state] := by
      funext other
      unfold spread
      by_cases here : other = state
      · subst here
        simp [held, none_yet]
      · simp [here]
    simp only [if_true]
    unfold add_transition
    rw [← same, ← candidate_wildcard state (state_data state)]
    show (match map state with
      | none => _
      | some mappings => _) >>= _ = _
    rw [held]
    dsimp only
    unfold refused
    split <;> rfl

theorem opened_spread {state other : E.Ident} (apart : other ≠ state) :
    opened (spread map row [state]) row other = opened map row other := by
  unfold opened spread
  simp [apart]

/-- Two predicates that agree on a list hold somewhere in it together. -/
theorem any_of_agree {α : Type} {list : List α} {first second : α → Bool}
    (agree : ∀ value ∈ list, first value = second value) :
    list.any first = list.any second := by
  induction list with
  | nil => rfl
  | cons value rest ih =>
    rw [List.any_cons, List.any_cons, agree value List.mem_cons_self,
      ih fun other among => agree other (List.mem_cons_of_mem _ among)]

/-- Where a state has the trigger, a row from `_` is not added to it. -/
theorem spread_closed {state : E.Ident} (rest : List E.Ident)
    {mappings : EventKey E → List (Candidate E)} (held : map state = some mappings)
    (closed : opened map row state = false) :
    spread map row (state :: rest) = spread map row rest := by
  have full : (mappings row.event.event_key).isEmpty = false := by
    simpa only [opened, held, Option.any_some] using closed
  funext other
  unfold spread
  by_cases same : other = state
  · subst same
    simp only [held, Option.map_some, full, Bool.false_eq_true, if_false, ite_self]
  · simp only [List.mem_cons, same, false_or]

theorem spread_cons {state : E.Ident} {rest : List E.Ident}
    (absent : state ∉ rest) :
    spread (spread map row [state]) row rest = spread map row (state :: rest) := by
  funext other
  unfold spread
  by_cases same : other = state
  · subst same
    simp [absent]
  · simp [same]

/-- The loop over the states comes to the same for every order of them. -/
theorem foldlM_add_wildcard {order : List E.Ident} (once : order.Nodup)
    (held : ∀ state ∈ order, (map state).isSome = true) (added : Bool) :
    order.foldlM (add_wildcard state_data row) (map, added) =
      if order.any fun state => opened map row state &&
          refused state_data (row.wildcard_transition state (state_data state)) then
        .error .no_data_action
      else .ok (spread map row order, added || order.any (opened map row)) := by
  induction order generalizing map added with
  | nil =>
    have same : spread map row [] = map := by
      funext state
      simp [spread]
    rw [same, List.any_nil, List.any_nil, Bool.or_false]
    rfl
  | cons state rest ih =>
    obtain ⟨absent, once⟩ := List.nodup_cons.mp once
    obtain ⟨mappings, here⟩ := Option.isSome_iff_exists.mp
      (held state List.mem_cons_self)
    have held (other) (among : other ∈ rest) : (map other).isSome = true :=
      held other (List.mem_cons_of_mem _ among)
    have apart (other) (among : other ∈ rest) : other ≠ state :=
      fun same => absent (same ▸ among)
    rw [List.foldlM_cons, add_wildcard_run here, List.any_cons, List.any_cons]
    cases opens : opened map row state with
    | false =>
      rw [spread_closed rest here opens, Bool.false_and, Bool.false_or,
        Bool.false_or]
      exact ih once held added
    | true =>
      cases refuses : refused state_data
          (row.wildcard_transition state (state_data state)) with
      | true => rfl
      | false =>
        have further := @ih (spread map row [state]) once (by
          intro other among
          unfold spread
          simpa [apart other among] using held other among) true
        have opening : ∀ other ∈ rest,
            opened (spread map row [state]) row other = opened map row other :=
          fun other among => opened_spread (apart other among)
        rw [spread_cons absent, any_of_agree opening,
          any_of_agree fun other among => by rw [opening other among]] at further
        rw [Bool.and_false, Bool.false_or, Bool.true_or, Bool.or_true]
        exact further

end Fill

/-! ### The mappings behind each row -/

/-- The mappings of some states behind the first rows. -/
def built (states : List E.Ident) (front : List (ParsedRow E T)) :
    TransitionMap E := fun state =>
  if state ∈ states then some fun key => expected state key [] front else none

/-- A row from `_` finds a state that has its trigger in none of the rows before. -/
def finds (front : List (ParsedRow E T)) (row : ParsedRow E T) (state : E.Ident) :
    Bool :=
  !front.any (·.is_for state row.event.event_key)

/-- Whether a row behind others is accepted. -/
def verdict (state_data : E.Ident → Option T) (states : List E.Ident)
    (front : List (ParsedRow E T)) (row : ParsedRow E T) :
    Except (ParseError E) Unit :=
  if row.in_state.wildcard then
    if states.any fun state => finds front row state &&
        refused state_data (row.wildcard_transition state (state_data state)) then
      .error .no_data_action
    else if states.any (finds front row) then .ok ()
    else .error .no_effect
  else if refused state_data row then .error .no_data_action
  else .ok ()

/-- Whether rows behind others are accepted. -/
def verdicts (state_data : E.Ident → Option T) (states : List E.Ident) :
    List (ParsedRow E T) → List (ParsedRow E T) → Except (ParseError E) Unit
  | _, [] => .ok ()
  | front, row :: rest => do
      verdict state_data states front row
      verdicts state_data states (front ++ [row]) rest

section Built

variable {state_data : E.Ident → Option T} {states order : List E.Ident}
  {front : List (ParsedRow E T)} {row : ParsedRow E T}

theorem opened_built {state : E.Ident} (among : state ∈ states) :
    opened (built states front) row state = finds front row state := by
  unfold opened built finds
  rw [if_pos among, Option.any_some, expected_isEmpty]

/-- An explicit row is one more candidate of its state. -/
theorem built_explicit (explicit : row.in_state.wildcard = false)
    (derived : row.out_state.internal_transition = false)
    (among : row.in_state.ident ∈ states) :
    Function.update (built states front) row.in_state.ident
        (some (Function.update
          (fun key => expected row.in_state.ident key [] front)
          row.event.event_key
          (expected row.in_state.ident row.event.event_key [] front ++
            [row.candidate]))) =
      built states (front ++ [row]) := by
  have same : row.candidate = row.candidate_at row.in_state.ident := by
    simp [ParsedRow.candidate, ParsedRow.candidate_at, derived]
  funext state
  unfold built
  by_cases here : state = row.in_state.ident
  · subst here
    rw [Function.update_self, if_pos among]
    congr 1
    funext key
    rw [expected_snoc, List.nil_append]
    by_cases trigger : key = row.event.event_key
    · subst trigger
      simp [ParsedRow.counts, ParsedRow.is_for, explicit, same]
    · rw [Function.update_of_ne trigger, counts_of_key (Ne.symm trigger)]
      simp
  · have skipped (key) : row.counts front state key = false := by
      simp [ParsedRow.counts, ParsedRow.is_for, explicit, Ne.symm here]
    rw [Function.update_of_ne here]
    simp only [expected_snoc, List.nil_append, skipped, Bool.false_eq_true,
      if_false, List.append_nil]

/-- A row from `_` is the candidate of the states that it finds. -/
theorem built_wildcard (wildcard : row.in_state.wildcard = true) :
    spread (built states front) row states = built states (front ++ [row]) := by
  funext state
  unfold spread
  by_cases among : state ∈ states
  · unfold built
    rw [if_pos among, if_pos among, if_pos among, Option.map_some, expected_isEmpty]
    congr 1
    funext key
    rw [expected_snoc, List.nil_append]
    by_cases trigger : row.event.event_key = key
    · subst trigger
      cases found : front.any (·.is_for state row.event.event_key) with
      | true => simp [ParsedRow.counts, found, wildcard]
      | false =>
        have none_yet : expected state row.event.event_key [] front = [] := by
          apply List.isEmpty_iff.mp
          rw [expected_isEmpty, found]
          rfl
        have counts : row.counts front state row.event.event_key = true := by
          unfold ParsedRow.counts
          rw [found]
          simp [ParsedRow.is_for, wildcard]
        rw [counts, none_yet]
        simp
    · rw [counts_of_key trigger]
      cases front.any (·.is_for state row.event.event_key) with
      | true => simp
      | false => simp [Function.update_of_ne (Ne.symm trigger)]
  · unfold built
    rw [if_neg among, if_neg among]
    exact (if_neg among).symm

/-- A turn of the second loop. -/
theorem fill_built (perm : order.Perm states) (once : states.Nodup)
    (derived : row.in_state.wildcard = false →
      row.out_state.internal_transition = false ∧ row.in_state.ident ∈ states) :
    fill state_data order (built states front) row =
      (verdict state_data states front row).map fun _ =>
        built states (front ++ [row]) := by
  unfold fill verdict
  cases wildcard : row.in_state.wildcard with
  | true =>
    have within : ∀ state ∈ order, state ∈ states :=
      fun state among => perm.mem_iff.mp among
    have held : ∀ state ∈ order, (built states front state).isSome = true := by
      intro state among
      unfold built
      rw [if_pos (within state among)]
      rfl
    have spreads : spread (built states front) row order =
        built states (front ++ [row]) := by
      rw [← built_wildcard wildcard]
      funext state
      unfold spread
      simp only [perm.mem_iff]
    have opening : ∀ state ∈ order,
        opened (built states front) row state = finds front row state :=
      fun state among => opened_built (within state among)
    rw [if_pos rfl, if_pos rfl,
      foldlM_add_wildcard (perm.nodup_iff.mpr once) held, spreads,
      any_of_agree opening,
      any_of_agree fun state among => by rw [opening state among],
      perm.any_eq, perm.any_eq, Bool.false_or]
    split
    · rfl
    · cases states.any (finds front row) <;> rfl
  | false =>
    obtain ⟨derived, among⟩ := derived wildcard
    rw [if_neg Bool.false_ne_true, if_neg Bool.false_ne_true]
    have here : built states front row.in_state.ident =
        some fun key => expected row.in_state.ident key [] front := if_pos among
    unfold add_transition
    rw [here, ← built_explicit wildcard derived among]
    unfold refused
    dsimp only
    split <;> rfl

/-- The second loop. -/
theorem foldlM_fill (perm : order.Perm states) (once : states.Nodup)
    {rest : List (ParsedRow E T)}
    (derived : ∀ row ∈ rest, row.in_state.wildcard = false →
      row.out_state.internal_transition = false ∧ row.in_state.ident ∈ states) :
    rest.foldlM (fill state_data order) (built states front) =
      (verdicts state_data states front rest).map fun _ =>
        built states (front ++ rest) := by
  induction rest generalizing front with
  | nil =>
    rw [List.append_nil]
    rfl
  | cons row rest ih =>
    rw [List.foldlM_cons, fill_built perm once (derived row List.mem_cons_self)]
    unfold verdicts
    cases verdict state_data states front row with
    | error _ => rfl
    | ok _ =>
      have further := @ih (front ++ [row]) fun other among =>
        derived other (List.mem_cons_of_mem _ among)
      rw [List.append_assoc, List.singleton_append] at further
      exact further

end Built

/-! ### The first loop -/

namespace ParsedRow

variable (row : ParsedRow E T)

/-- A row has a state as its source or as its target. -/
def names (state : E.Ident) : Prop :=
  (row.in_state.wildcard = false ∧ row.in_state.ident = state) ∨
    row.out_state.internal_transition = false ∧ row.out_state.ident = state

@[simp] theorem derive_in_state : row.derive_out_state.in_state = row.in_state := by
  unfold derive_out_state
  split <;> rfl

@[simp] theorem derive_event : row.derive_out_state.event = row.event := by
  unfold derive_out_state
  split <;> rfl

theorem derive_explicit (explicit : row.in_state.wildcard = false) :
    row.derive_out_state.out_state.internal_transition = false := by
  unfold derive_out_state
  cases internal : row.out_state.internal_transition with
  | true => simp [explicit]
  | false => simp [internal]

theorem derive_names (state : E.Ident) :
    row.derive_out_state.names state ↔ row.names state := by
  unfold names derive_out_state
  cases internal : row.out_state.internal_transition <;>
    cases wildcard : row.in_state.wildcard <;> simp [internal, wildcard]

theorem derive_is_for (state : E.Ident) (key : EventKey E) :
    row.derive_out_state.is_for state key = row.is_for state key := by
  simp [is_for]

theorem derive_candidate {state : E.Ident} {key : EventKey E}
    (has : row.is_for state key = true) :
    row.derive_out_state.candidate_at state = row.candidate_at state := by
  have source : row.in_state.wildcard = true ∨ row.in_state.ident = state := by
    simp only [is_for, Bool.and_eq_true, Bool.or_eq_true,
      decide_eq_true_eq] at has
    exact has.1
  unfold candidate_at derive_out_state
  cases internal : row.out_state.internal_transition with
  | false => simp [internal]
  | true =>
    cases wildcard : row.in_state.wildcard with
    | true => simp [internal]
    | false =>
      have here : row.in_state.ident = state := by simpa [wildcard] using source
      simp [here]

end ParsedRow

/-- The targets that are derived change no candidate. -/
theorem expected_derived (state : E.Ident) (key : EventKey E)
    (front rows : List (ParsedRow E T)) :
    expected state key (front.map ParsedRow.derive_out_state)
        (rows.map ParsedRow.derive_out_state) =
      expected state key front rows := by
  induction rows generalizing front with
  | nil => rfl
  | cons row rest ih =>
    have counts : row.derive_out_state.counts
        (front.map ParsedRow.derive_out_state) state key =
          row.counts front state key := by
      unfold ParsedRow.counts
      rw [List.any_map, row.derive_is_for, row.derive_in_state]
      congr 3
      exact any_of_agree fun other _ => other.derive_is_for state key
    have further := ih (front ++ [row])
    rw [List.map_append, List.map_singleton] at further
    rw [List.map_cons, expected, expected, counts, further]
    cases counted : row.counts front state key with
    | false => rfl
    | true =>
      have has : row.is_for state key = true := by
        unfold ParsedRow.counts at counted
        exact (Bool.and_eq_true _ _ ▸ counted).1
      rw [row.derive_candidate has]

section Collect

variable [DecidableEq T] {lifetimes : T → Bool} {collected after : Collected E T}
  {row : ParsedRow E T}

/-- Every state has a mapping, and no mapping has a candidate yet. -/
structure Collected.Blank (collected : Collected E T) : Prop where
  once : collected.states.Nodup
  mapping : collected.states_events_mapping =
    built collected.states ([] : List (ParsedRow E T))

/-- What becomes of the states when a state is collected. -/
theorem Collected.add_state_ok {state : E.Ident} {data_type : Option T}
    (run : collected.add_state lifetimes state data_type = .ok after)
    (blank : collected.Blank) :
    after.Blank ∧
      ∀ other, other ∈ after.states ↔ other ∈ collected.states ∨ other = state := by
  unfold Collected.add_state at run
  cases collects : collect lifetimes collected.state_data state data_type with
  | error _ =>
    rw [collects] at run
    cases run
  | ok state_data =>
    rw [collects] at run
    cases run
    refine ⟨⟨blank.once.insert, ?_⟩, ?_⟩
    · funext other
      dsimp only
      rw [blank.mapping]
      unfold built
      by_cases same : other = state
      · subst same
        simp [expected]
      · simp [same]
    · intro other
      rw [List.mem_insert_iff]
      exact Or.comm

/-- The collection of an event leaves the states. -/
theorem Collected.add_event_ok
    (run : collected.add_event lifetimes row = .ok after) :
    after.states = collected.states ∧
      after.states_events_mapping = collected.states_events_mapping := by
  unfold Collected.add_event at run
  split at run
  · cases collects : collect lifetimes collected.event_data row.event.ident
        row.event_type with
    | error _ =>
      rw [collects] at run
      cases run
    | ok event_data =>
      rw [collects] at run
      cases run
      exact ⟨rfl, rfl⟩
  · cases run
    exact ⟨rfl, rfl⟩

/-- What a run that binds another one passes through. -/
theorem passes {ε α β : Type} {first : Except ε α} {next : α → Except ε β} {value : β}
    (run : first >>= next = .ok value) :
    ∃ between, first = .ok between ∧ next between = .ok value := by
  cases first with
  | error _ => cases run
  | ok between => exact ⟨between, rfl, run⟩

/-- The three parts of a turn, one behind the other. -/
theorem Collected.add_row_parts (collected : Collected E T) (row : ParsedRow E T) :
    collected.add_row lifetimes row =
      ((if row.in_state.wildcard then .ok collected
        else collected.add_state lifetimes row.in_state.ident
          row.in_state.data_type) >>= fun collected =>
        (if row.out_state.internal_transition then .ok collected
          else collected.add_state lifetimes row.out_state.ident
            row.out_state.data_type) >>= fun collected =>
          if row.event.collects then collected.add_event lifetimes row
          else .ok collected) := by
  unfold Collected.add_row
  cases row.in_state.wildcard <;> cases row.out_state.internal_transition <;> rfl

/-- A turn of the first loop. -/
theorem Collected.add_row_ok (run : collected.add_row lifetimes row = .ok after)
    (blank : collected.Blank) :
    after.Blank ∧
      ∀ state, state ∈ after.states ↔ state ∈ collected.states ∨ row.names state := by
  rw [Collected.add_row_parts] at run
  obtain ⟨first, sources, run⟩ := passes run
  obtain ⟨second, targets, events⟩ := passes run
  have source : first.Blank ∧ ∀ state, state ∈ first.states ↔
      state ∈ collected.states ∨
        row.in_state.wildcard = false ∧ row.in_state.ident = state := by
    cases wildcard : row.in_state.wildcard with
    | true =>
      rw [wildcard] at sources
      cases sources
      exact ⟨blank, by simp⟩
    | false =>
      rw [wildcard] at sources
      obtain ⟨still, among⟩ := Collected.add_state_ok sources blank
      refine ⟨still, fun state => ?_⟩
      rw [among, eq_comm]
      simp
  have target : second.Blank ∧ ∀ state, state ∈ second.states ↔
      state ∈ first.states ∨
        row.out_state.internal_transition = false ∧ row.out_state.ident = state := by
    cases internal : row.out_state.internal_transition with
    | true =>
      rw [internal] at targets
      cases targets
      exact ⟨source.1, by simp⟩
    | false =>
      rw [internal] at targets
      obtain ⟨still, among⟩ := Collected.add_state_ok targets source.1
      refine ⟨still, fun state => ?_⟩
      rw [among, eq_comm]
      simp
  have kept : after.states = second.states ∧
      after.states_events_mapping = second.states_events_mapping := by
    split at events
    · exact Collected.add_event_ok events
    · cases events
      exact ⟨rfl, rfl⟩
  refine ⟨⟨kept.1 ▸ target.1.once, ?_⟩, fun state => ?_⟩
  · rw [kept.2, target.1.mapping, kept.1]
  · rw [kept.1, target.2, source.2, or_assoc]
    rfl

/-- The first loop. -/
theorem Collected.add_rows_ok {rows : List (ParsedRow E T)}
    (run : rows.foldlM (Collected.add_row lifetimes) collected = .ok after)
    (blank : collected.Blank) :
    after.Blank ∧ ∀ state, state ∈ after.states ↔
      state ∈ collected.states ∨ ∃ row ∈ rows, row.names state := by
  induction rows generalizing collected with
  | nil =>
    cases run
    exact ⟨blank, by simp⟩
  | cons row rest ih =>
    rw [List.foldlM_cons] at run
    obtain ⟨first, turn, run⟩ := passes run
    obtain ⟨still, among⟩ := Collected.add_row_ok turn blank
    obtain ⟨last, names⟩ := ih run still
    refine ⟨last, fun state => ?_⟩
    rw [names, among, or_assoc, List.exists_mem_cons_iff]

end Collect

/-! ### The expansion of a table -/

section Expansion

variable [DecidableEq T] (lifetimes : T → Bool)

/-- The table that is parsed, whatever the order in which the states are
iterated. -/
theorem parsed_built (iteration : Iteration E) (transitions : List (ParsedRow E T)) :
    ParsedStateMachine.new lifetimes iteration transitions =
      find_start (transitions.map ParsedRow.derive_out_state) >>= fun starting_state =>
        (transitions.map ParsedRow.derive_out_state).foldlM
            (Collected.add_row lifetimes) {} >>= fun collected =>
          (verdicts collected.state_data collected.states []
            (transitions.map ParsedRow.derive_out_state)).map fun _ =>
              { starting_state := starting_state
                states := collected.states
                state_data := collected.state_data
                events := collected.events
                event_data := collected.event_data
                states_events_mapping := built collected.states transitions } := by
  unfold ParsedStateMachine.new
  dsimp only
  cases find_start (transitions.map ParsedRow.derive_out_state) with
  | error _ => rfl
  | ok starting_state =>
    cases first : (transitions.map ParsedRow.derive_out_state).foldlM
        (Collected.add_row lifetimes) {} with
    | error _ => rfl
    | ok collected =>
      obtain ⟨blank, among⟩ := Collected.add_rows_ok first
        ⟨List.nodup_nil, rfl⟩
      have derived : ∀ row ∈ transitions.map ParsedRow.derive_out_state,
          row.in_state.wildcard = false →
            row.out_state.internal_transition = false ∧
              row.in_state.ident ∈ collected.states := by
        intro row listed explicit
        constructor
        · obtain ⟨written, _, rfl⟩ := List.mem_map.mp listed
          exact written.derive_explicit (written.derive_in_state ▸ explicit)
        · exact (among _).mpr (.inr ⟨row, listed, .inl ⟨explicit, rfl⟩⟩)
      have second := @foldlM_fill _ _ collected.state_data _ _ []
        (iteration.perm collected.states) blank.once _ derived
      have same : built collected.states
          ([] ++ transitions.map ParsedRow.derive_out_state) =
            built collected.states transitions := by
        unfold built
        simp only [List.nil_append, ← expected_derived _ _ [] transitions,
          List.map_nil]
      rw [← blank.mapping, same] at second
      simp only [bind, Except.bind] at second ⊢
      rw [second]
      cases verdicts collected.state_data collected.states []
        (transitions.map ParsedRow.derive_out_state) <;> rfl

/-- The expansion of a table is exact: each of its states has the candidates that
are expected of the rows, and the order in which the hash maps are iterated decides
neither on them nor on whether the table is accepted. -/
theorem expansion_exact (iteration : Iteration E)
    (transitions : List (ParsedRow E T)) :
    (∀ parsed,
      ParsedStateMachine.new lifetimes iteration transitions = .ok parsed →
        (∀ state, state ∈ parsed.states ↔ ∃ row ∈ transitions, row.names state) ∧
          ∀ state, parsed.states_events_mapping state =
            if state ∈ parsed.states then
              some fun key => expected state key [] transitions
            else none) ∧
      ∀ other : Iteration E,
        ParsedStateMachine.new lifetimes other transitions =
          ParsedStateMachine.new lifetimes iteration transitions := by
  constructor
  · intro parsed accepted
    rw [parsed_built] at accepted
    obtain ⟨starting_state, _, accepted⟩ := passes accepted
    obtain ⟨collected, first, accepted⟩ := passes accepted
    obtain ⟨_, among⟩ := Collected.add_rows_ok first ⟨List.nodup_nil, rfl⟩
    cases passed : verdicts collected.state_data collected.states []
        (transitions.map ParsedRow.derive_out_state) with
    | error _ =>
      rw [passed] at accepted
      cases accepted
    | ok _ =>
      rw [passed] at accepted
      cases accepted
      refine ⟨fun state => ?_, fun state => rfl⟩
      rw [among]
      simp only [List.not_mem_nil, false_or, List.mem_map, exists_exists_and_eq_and,
        ParsedRow.derive_names]
  · intro other
    rw [parsed_built, parsed_built]

end Expansion

end SmlRs.Macros
