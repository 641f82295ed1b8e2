/-
Module: SmlRs.Macros.Closedness
Purpose: The items that are generated for a flat table with generic events are closed:
  what their types mention is declared, once, by the item or around it.
Trusted boundary: the generic parameters and the context that a table declares are in
  scope, as Rust requires of them
Main exports: TypedStateMachine.new, GeneratedItem, TypedStateMachine.Generated,
  generated_items_closed
-/
import SmlRs.Macros.Generics
import SmlRs.Macros.Signatures

namespace SmlRs.Macros

open Lib

variable {E : Environment} {N A : Type} [DecidableEq N]

/-! ### Parsing a table with types -/

/-- Why a table with types is rejected. -/
inductive TypedError (E : Environment) (N : Type) where
  /-- "typed exception transitions must declare an error payload type" -/
  | payload (event : E.Ident)
  /-- "one machine cannot route multiple unrelated Rust callback error types" -/
  | unrelated (event : E.Ident)
  | generics (error : GenericsError E N)
  | parse (error : ParseError E)

/-- A turn of the loop over the typed exceptions, at the end of
`SmlDefinition::parse`. -/
def route_error_type (fixed_error_type : Option (DataType N)) (transition : TypedRow E N) :
    Except (TypedError E N) (Option (DataType N)) :=
  let event := transition.row.event
  if event.kind = .exception && !event.wildcard then
    match transition.row.event_type with
    | none => .error (.payload event.ident)
    | some error_type =>
        if fixed_error_type.any (· ≠ error_type) then .error (.unrelated event.ident)
        else .ok (some error_type)
  else .ok fixed_error_type

/-- `ParsedStateMachine`, with what it holds of types. -/
structure TypedStateMachine (E : Environment) (N : Type) where
  parsed : ParsedStateMachine E (DataType N)
  definitions : Definitions E N
  event_generics : Generics N
  temporary_context_type : Option (DataType N)
  fixed_error_type : Option (DataType N)

/-- `ParsedStateMachine::new`, behind the routing of errors. The loop that collects the
states and events collects the definitions. -/
def TypedStateMachine.new (iteration : Iteration E) (table : TypedTable E N) :
    Except (TypedError E N) (TypedStateMachine E N) := do
  let fixed_error_type ← table.transitions.foldlM route_error_type none
  (check_generics table).mapError .generics
  let rows := table.transitions.map (·.row)
  let parsed ← (ParsedStateMachine.new collects iteration rows).mapError .parse
  let definitions ←
    ((rows.map ParsedRow.derive_out_state).foldlM Definitions.add_row {}).mapError .parse
  pure
    { parsed := parsed
      definitions := definitions
      event_generics := table.event_generics
      temporary_context_type := table.temporary_context_type
      fixed_error_type := fixed_error_type }

/-! ### Generated items -/

/-- An item with its own generics, the lifetimes of the `impl` around it, and the types
that are written in it. -/
structure GeneratedItem (N : Type) where
  outer : List (Lifetime N) := []
  generics : Generics N
  types : List (DataType N)

/-- `<'a, ..>`. -/
def lifetime_generics (lifetimes : Lifetimes N) : Generics N where
  params := lifetimes.map fun lifetime => .lifetime { lifetime := lifetime }

/-- A parameter as an argument. -/
def GenericParam.argument : GenericParam N → DataType N
  | lifetime param => .node (.lifetime param.lifetime) []
  | type ident _ | const ident _ => .node (.type_path false false [ident]) []

namespace TypedStateMachine

variable (sm : TypedStateMachine E N)

def state_type (state : E.Ident) : Option (DataType N) :=
  sm.definitions.state_data.data_types state

def event_type (event : E.Ident) : Option (DataType N) :=
  sm.definitions.event_data.data_types event

def state_lifetimes : Lifetimes N := sm.definitions.state_data.all_lifetimes

def event_lifetimes : Lifetimes N := sm.definitions.event_data.all_lifetimes

/-- The `enum` of the states. -/
def states_item : GeneratedItem N where
  generics := lifetime_generics sm.state_lifetimes
  types := sm.parsed.states.filterMap sm.state_type

/-- `event_generics` of `generate_code`. -/
def events_generics : Generics N :=
  generics_with_lifetimes sm.event_generics sm.event_lifetimes

/-- The `enum` of the events. -/
def events_item : GeneratedItem N where
  generics := sm.events_generics
  types := sm.parsed.events.filterMap sm.event_type

/-- The `completion_lifetimes` of some events. -/
def completion_lifetimes (events : List E.Ident) : Lifetimes N :=
  events.foldl (fun lifetimes event =>
    match sm.definitions.event_data.lifetimes event with
    | some own => Lifetimes.extend lifetimes own
    | none => lifetimes) []

/-- The `enum` of the origins of completions, with the events that have completion rows
of their own. -/
def completion_origin_item (completion_events : List E.Ident) : GeneratedItem N where
  generics :=
    completion_generics_with_lifetimes sm.event_generics
      (sm.completion_lifetimes completion_events)
      (completion_events.findSome? fun event =>
        (sm.event_type event).filter (type_uses_event_generics sm.event_generics))
  types := completion_events.filterMap sm.event_type

/-- The lifetimes of the data of a candidate. -/
def candidate_lifetimes (in_state out_state event : E.Ident) : Lifetimes N :=
  Lifetimes.extend
    (Lifetimes.extend
      (Lifetimes.extend [] (sm.definitions.state_data.lifetimes_of in_state))
      (sm.definitions.state_data.lifetimes_of out_state))
    (sm.definitions.event_data.lifetimes_of event)

/-- The signature of a callback, with the types between the context and the error. -/
def callback_item (in_state out_state event : E.Ident) (types : List (DataType N)) :
    GeneratedItem N where
  generics :=
    callback_generics_with_lifetimes sm.event_generics sm.temporary_context_type
      (sm.candidate_lifetimes in_state out_state event) (sm.event_type event)
  types := sm.temporary_context_type.toList ++ types ++ sm.fixed_error_type.toList

/-- The signature of a guard, of the row or of one of its evals. -/
def guard_item (in_state out_state event : E.Ident) : GeneratedItem N :=
  sm.callback_item in_state out_state event
    ((sm.state_type in_state).toList ++ (sm.event_type event).toList)

/-- The signature of an action, the last one of the row or another. -/
def action_item (in_state out_state event : E.Ident) (kind : EventKind)
    (wildcard last : Bool) : GeneratedItem N :=
  let event_data :=
    if kind = .exception && !wildcard then sm.fixed_error_type else sm.event_type event
  let output_data :=
    if kind = .entry || kind = .exit || !last then none else sm.state_type out_state
  sm.callback_item in_state out_state event
    ((sm.state_type in_state).toList ++ event_data.toList ++ output_data.toList)

/-- `dispatch_generics`. -/
def dispatch_generics : Generics N :=
  let generics :=
    generics_with_lifetimes sm.event_generics
      (Lifetimes.without sm.event_lifetimes sm.state_lifetimes)
  { generics with
    params := generics.params.filter fun param =>
      !param.lifetime?.any fun lifetime => lifetime ∈ sm.state_lifetimes }

/-- The signature of `process_event`, in the `impl` for the states. -/
def process_event_item : GeneratedItem N where
  outer := sm.state_lifetimes
  generics := sm.dispatch_generics
  types :=
    sm.temporary_context_type.toList ++ sm.events_generics.params.map (·.argument) ++
      sm.fixed_error_type.toList

/-- The items that are generated. -/
inductive Generated (idents : Idents E A) : GeneratedItem N → Prop where
  | states : Generated idents sm.states_item
  | events : Generated idents sm.events_item
  | completion_origin (completion_events : List E.Ident)
      (each : ∀ event, event ∈ completion_events ↔ ∃ state,
        sm.parsed.candidates state (.completion, some (some event)) ≠ []) :
      Generated idents (sm.completion_origin_item completion_events)
  | guard (in_state : E.Ident) (key : EventKey E) (candidate : Candidate E)
      (among : candidate ∈ sm.parsed.candidates in_state key) :
      Generated idents
        (sm.guard_item in_state candidate.out_state (key.event idents))
  | action (in_state : E.Ident) (key : EventKey E) (candidate : Candidate E)
      (among : candidate ∈ sm.parsed.candidates in_state key) (last : Bool) :
      Generated idents
        (sm.action_item in_state candidate.out_state (key.event idents) key.1
          (key.2 = some none) last)
  | process_event : Generated idents sm.process_event_item

end TypedStateMachine

/-- Whatever an item mentions is declared by it or around it. No lifetime is declared
twice, and lifetimes are declared in front of the other parameters. -/
structure GeneratedItem.Closed (event_generics : Generics N) (item : GeneratedItem N) :
    Prop where
  distinct : (item.outer ++ item.generics.lifetimes).Nodup
  leading : item.generics.params.Pairwise fun param behind =>
    behind.is_lifetime = true → param.is_lifetime = true
  lifetimes : ∀ lifetime ∈ item.generics.mentions ++ item.types.flatMap free_lifetimes,
    lifetime = .static ∨ lifetime ∈ item.outer ++ item.generics.lifetimes
  families : ∀ generic ∈ event_generics.families,
    ∀ data_type ∈ item.generics.bounds ++ item.types,
      type_uses_generic_param data_type generic = true →
        generic.ident? ∈ item.generics.families.map GenericParam.ident?

/-! ### What is checked -/

section Checks

variable {table : TypedTable E N}

theorem forM_ok {α ε : Type} {items : List α} {step : α → Except ε Unit}
    (run : items.forM step = .ok ()) : ∀ item ∈ items, step item = .ok () := by
  induction items with
  | nil => exact fun _ none => absurd none List.not_mem_nil
  | cons first rest hypothesis =>
      have parts : (step first >>= fun _ => rest.forM step) = .ok () := run
      obtain ⟨_, one, run⟩ := passes parts
      intro item among
      cases among with
      | head => exact one
      | tail _ among => exact hypothesis run item among

omit [DecidableEq N] in
theorem refuse_ok {ε : Type} {generic : Option (GenericParam N)}
    {error : GenericParam N → ε} (run : refuse generic error = .ok ()) : generic = none := by
  cases generic with
  | none => rfl
  | some generic => cases run

/-- What `check_generics` leaves. -/
structure Checked (table : TypedTable E N) : Prop where
  state : ∀ transition ∈ table.transitions, ∀ data_type,
    transition.row.in_state.data_type = some data_type ∨
      transition.row.out_state.data_type = some data_type →
    ∀ generic ∈ table.event_generics.families,
      type_uses_generic_param data_type generic = false
  exception : ∀ transition ∈ table.transitions,
    transition.row.event.kind = .exception → ∀ event_type,
      transition.row.event_type = some event_type →
    ∀ generic ∈ table.event_generics.params,
      type_uses_generic_param event_type generic = false
  whole : ∀ transition ∈ table.transitions, ∀ event_type,
    transition.row.event_type = some event_type →
      type_uses_event_generics table.event_generics event_type = true →
    ∀ generic ∈ table.event_generics.families,
      type_uses_generic_param event_type generic = true
  used : ∀ generic ∈ table.event_generics.params, ∃ transition ∈ table.transitions,
    ∃ event_type, transition.row.event_type = some event_type ∧
      type_uses_generic_param event_type generic = true

theorem check_state_data_ok {generics : Generics N} {state : E.Ident}
    {data_type : DataType N}
    (passed : check_state_data generics state (some data_type) = .ok ()) :
    ∀ generic ∈ generics.families, type_uses_generic_param data_type generic = false := by
  intro generic among
  have none := List.find?_eq_none.mp (refuse_ok passed) generic among
  exact Bool.not_eq_true _ ▸ none

theorem check_event_ok {generics : Generics N} {transition : TypedRow E N}
    {event_type : DataType N} (passed : check_event generics transition = .ok ())
    (typed : transition.row.event_type = some event_type) :
    (transition.row.event.kind = .exception → ∀ generic ∈ generics.params,
      type_uses_generic_param event_type generic = false) ∧
    (type_uses_event_generics generics event_type = true →
      ∀ generic ∈ generics.families,
        type_uses_generic_param event_type generic = true) := by
  unfold check_event at passed
  rw [typed] at passed
  have both : ((if transition.row.event.kind = .exception then
        refuse (generics.params.find? (type_uses_generic_param event_type))
          (GenericsError.exception transition.row.event.ident)
      else .ok ()) >>= fun _ : Unit =>
        if !transition.external &&
            !generics.params.any (type_uses_generic_param event_type) then .ok ()
        else
          refuse (generics.families.find? (!type_uses_generic_param event_type ·))
            (GenericsError.incomplete_event transition.row.event.ident)) = .ok () := by
    refine Eq.trans ?_ passed
    by_cases kind : transition.row.event.kind = .exception
    · simp only [kind, if_true]
      rfl
    · simp only [kind, if_false]
      rfl
  obtain ⟨_, first, second⟩ := passes both
  constructor
  · intro kind generic among
    rw [if_pos kind] at first
    have none := List.find?_eq_none.mp (refuse_ok first) generic among
    exact Bool.not_eq_true _ ▸ none
  · intro uses generic among
    have uses : generics.params.any (type_uses_generic_param event_type) = true := uses
    rw [uses, Bool.not_true, Bool.and_false, if_neg Bool.false_ne_true] at second
    have none := List.find?_eq_none.mp (refuse_ok second) generic among
    simpa using none

/-- The checks, one behind the other. -/
theorem check_generics_parts :
    check_generics table =
      ((if !table.event_generics.params.isEmpty && table.transitions.any fun transition =>
          transition.row.defer || !transition.row.process_events.isEmpty then
          .error .queue else .ok ()) >>= fun _ : Unit =>
        (table.transitions.forM fun transition => do
          check_state_data table.event_generics transition.row.in_state.ident
            transition.row.in_state.data_type
          check_state_data table.event_generics transition.row.out_state.ident
            transition.row.out_state.data_type) >>= fun _ =>
        table.transitions.forM (check_event table.event_generics) >>= fun _ =>
        check_used table.event_generics table.transitions >>= fun _ =>
        check_context table.event_generics table.temporary_context_type >>= fun _ =>
        table.transitions.forM (check_completion table.transitions)) := by
  unfold check_generics
  dsimp only
  generalize (!table.event_generics.params.isEmpty && table.transitions.any fun transition =>
    transition.row.defer || !transition.row.process_events.isEmpty) = queue
  cases queue with
  | true => rfl
  | false => rfl

theorem check_generics_ok (passed : check_generics table = .ok ()) : Checked table := by
  rw [check_generics_parts] at passed
  obtain ⟨_, _, passed⟩ := passes passed
  obtain ⟨_, states, passed⟩ := passes passed
  obtain ⟨_, events, passed⟩ := passes passed
  obtain ⟨_, used, _⟩ := passes passed
  refine ⟨?_, ?_, ?_, ?_⟩
  · intro transition among data_type given
    obtain ⟨_, source, target⟩ := passes (forM_ok states transition among)
    rcases given with given | given
    · rw [given] at source
      exact check_state_data_ok source
    · rw [given] at target
      exact check_state_data_ok target
  · intro transition among kind event_type typed
    exact (check_event_ok (forM_ok events transition among) typed).1 kind
  · intro transition among event_type typed
    exact (check_event_ok (forM_ok events transition among) typed).2
  · intro generic among
    have known := List.find?_eq_none.mp (refuse_ok used) generic among
    simp only [Bool.not_eq_true', Bool.not_eq_false] at known
    obtain ⟨transition, listed, uses⟩ := List.any_eq_true.mp known
    obtain ⟨event_type, typed, uses⟩ := (Option.any_eq_true ..).mp uses
    exact ⟨transition, listed, event_type, typed, uses⟩

end Checks

/-! ### What a parsed table holds -/

section Made

variable {table : TypedTable E N} {sm : TypedStateMachine E N}

/-- Types that may be kept in a state. -/
def TypedTable.Stores (table : TypedTable E N) (data_type : DataType N) : Prop :=
  ∀ generic ∈ table.event_generics.families,
    type_uses_generic_param data_type generic = false

/-- Types of triggers that name an event. -/
def TypedTable.Carries (table : TypedTable E N) (event_type : DataType N) : Prop :=
  ∃ transition ∈ table.transitions, transition.row.event.collects = true ∧
    transition.row.event_type = some event_type

/-- Types of exceptions. -/
def TypedTable.Throws (table : TypedTable E N) (error_type : DataType N) : Prop :=
  ∃ transition ∈ table.transitions, transition.row.event.kind = .exception ∧
    transition.row.event_type = some error_type

/-- A machine is made from a table. -/
structure TypedStateMachine.Made (table : TypedTable E N)
    (sm : TypedStateMachine E N) : Prop where
  checked : Checked table
  generics : sm.event_generics = table.event_generics
  context : sm.temporary_context_type = table.temporary_context_type
  error : ∀ error_type, sm.fixed_error_type = some error_type → table.Throws error_type
  sound : sm.definitions.Sound table.Stores table.Carries
  state_types : ∀ state, sm.state_type state = sm.parsed.state_data state
  event_types : ∀ event, sm.event_type event = sm.parsed.event_data event

theorem mapError_ok {ε ε' α : Type} {run : Except ε α} {wrap : ε → ε'} {value : α}
    (returns : run.mapError wrap = .ok value) : run = .ok value := by
  cases run with
  | error error => cases returns
  | ok own =>
      cases returns
      rfl

theorem routed_error {transitions : List (TypedRow E N)} {before after : Option (DataType N)}
    (listed : ∀ transition ∈ transitions, transition ∈ table.transitions)
    (run : transitions.foldlM route_error_type before = .ok after)
    (known : ∀ error_type, before = some error_type → table.Throws error_type) :
    ∀ error_type, after = some error_type → table.Throws error_type := by
  induction transitions generalizing before with
  | nil =>
      cases run
      exact known
  | cons transition rest hypothesis =>
      rw [List.foldlM_cons] at run
      obtain ⟨between, turn, run⟩ := passes run
      refine hypothesis (fun other among => listed other (List.mem_cons_of_mem _ among))
        run ?_
      intro error_type routed
      unfold route_error_type at turn
      dsimp only at turn
      split at turn <;> rename_i exception
      · have kind := of_decide_eq_true ((Bool.and_eq_true_iff ..).mp exception).1
        cases typed : transition.row.event_type with
        | none =>
            rw [typed] at turn
            cases turn
        | some own =>
            rw [typed] at turn
            dsimp only at turn
            split at turn
            · cases turn
            · cases turn
              cases routed
              exact ⟨transition, listed _ (List.mem_cons_self ..), kind, typed⟩
      · cases turn
        exact known error_type routed

theorem TypedStateMachine.new_made {iteration : Iteration E}
    (new : TypedStateMachine.new iteration table = .ok sm) : sm.Made table := by
  obtain ⟨fixed_error_type, routed, new⟩ := passes new
  obtain ⟨_, checks, new⟩ := passes new
  obtain ⟨parsed, parses, new⟩ := passes new
  obtain ⟨definitions, defines, new⟩ := passes new
  cases new
  have checked := check_generics_ok (mapError_ok checks)
  have parses := mapError_ok parses
  have defines := mapError_ok defines
  rw [parsed_built] at parses
  obtain ⟨_, _, parses⟩ := passes parses
  obtain ⟨collected, collects, parses⟩ := passes parses
  have start : ({} : Definitions E N).Follows {} := ⟨rfl, rfl⟩
  obtain ⟨after, run, follows⟩ := start.add_rows collects
  cases run.symm.trans defines
  have same : parsed.state_data = collected.state_data ∧
      parsed.event_data = collected.event_data := by
    cases passed : verdicts collected.state_data collected.states []
        ((table.transitions.map (·.row)).map ParsedRow.derive_out_state) with
    | error _ =>
        rw [passed] at parses
        cases parses
    | ok _ =>
        rw [passed] at parses
        cases parses
        exact ⟨rfl, rfl⟩
  refine
    { checked := checked
      generics := rfl
      context := rfl
      error := routed_error (fun _ among => among) routed nofun
      sound := ?_
      state_types := fun state => ?_
      event_types := fun event => ?_ }
  · apply Definitions.Sound.add_rows ⟨.empty, .empty⟩ _ run
    intro row derived
    obtain ⟨written, listed, rfl⟩ := List.mem_map.mp derived
    obtain ⟨transition, among, rfl⟩ := List.mem_map.mp listed
    have stores := checked.state transition among
    refine ⟨?_, ?_, ?_⟩
    · intro data_type given
      rw [ParsedRow.derive_in_state] at given
      exact stores data_type (.inl given)
    · intro data_type given
      unfold ParsedRow.derive_out_state at given
      split at given
      · exact stores data_type (.inl given)
      · exact stores data_type (.inr given)
    · intro named event_type typed
      rw [ParsedRow.derive_event] at named
      refine ⟨transition, among, named, ?_⟩
      unfold ParsedRow.derive_out_state at typed
      split at typed
      · exact typed
      · exact typed
  · exact congrFun (follows.state.trans same.1.symm) state
  · exact congrFun (follows.event.trans same.2.symm) event

end Made

/-! ### Closed items -/

/-- What a table writes of lifetimes itself is in scope: its generics declare what they
mention, and the context and the errors mention no other lifetimes. The lifetimes of
the data of states and events need not be declared. -/
structure TypedTable.Declares (table : TypedTable E N) : Prop where
  inside : table.event_generics.Scoped
  context : ∀ own, table.temporary_context_type = some own →
    ∀ lifetime ∈ free_lifetimes own,
      lifetime = .static ∨ lifetime ∈ table.event_generics.lifetimes
  errors : ∀ error_type, table.Throws error_type → ∀ lifetime ∈ free_lifetimes error_type,
    lifetime = .static ∨ lifetime ∈ table.event_generics.lifetimes

section Closed

variable {table : TypedTable E N} {sm : TypedStateMachine E N}
  {event_generics generics : Generics N} {lifetimes : Lifetimes N} {whole : Bool}
  {types : List (DataType N)}

/-- An item without an `impl` around it, whose generics have the lifetimes that its types
mention, and all parameters of the table if the types use one. -/
theorem Generics.Fits.closed (fits : Generics.Fits event_generics whole lifetimes generics)
    (mentions : ∀ data_type ∈ types, ∀ lifetime ∈ free_lifetimes data_type,
      lifetime = .static ∨ lifetime ∈ lifetimes)
    (uses : ∀ data_type ∈ types, ∀ generic ∈ event_generics.families,
      type_uses_generic_param data_type generic = true → whole = true) :
    GeneratedItem.Closed event_generics { generics := generics, types := types } where
  distinct := by
    rw [List.nil_append]
    exact fits.inside.distinct
  leading := fits.inside.leading
  lifetimes := by
    intro lifetime mention
    rw [List.nil_append]
    rcases List.mem_append.mp mention with mention | mention
    · exact fits.inside.closed lifetime mention
    · obtain ⟨data_type, among, mention⟩ := List.mem_flatMap.mp mention
      rcases mentions data_type among lifetime mention with static | known
      · exact .inl static
      · exact .inr ((fits.lifetimes_iff lifetime).mpr known)
  families := by
    intro generic among data_type written used
    have given : whole = true := by
      rcases List.mem_append.mp written with bound | written
      · by_contra none
        rw [fits.bare (Bool.eq_false_iff.mpr none)] at bound
        cases bound
      · exact uses data_type written generic among used
    rw [fits.families given]
    exact List.mem_map_of_mem among

theorem lifetime_generics_eq (distinct : lifetimes.Nodup) :
    lifetime_generics lifetimes = generics_with_lifetimes {} lifetimes := by
  unfold lifetime_generics generics_with_lifetimes Generics.lifetimes
  cases lifetimes with
  | nil => rfl
  | cons lifetime rest => simp

theorem uses_of_family {generic : GenericParam N} {data_type : DataType N}
    (among : generic ∈ event_generics.families)
    (used : type_uses_generic_param data_type generic = true) :
    type_uses_event_generics event_generics data_type = true :=
  List.any_eq_true.mpr ⟨generic, (List.mem_filter.mp among).1, used⟩

namespace TypedStateMachine

variable (made : sm.Made table)

include made

theorem state_mentions {state : E.Ident} {data_type : DataType N}
    (typed : sm.state_type state = some data_type) {lifetime : Lifetime N}
    (mention : lifetime ∈ free_lifetimes data_type) :
    lifetime = .static ∨ lifetime ∈ sm.definitions.state_data.lifetimes_of state := by
  by_cases static : lifetime = .static
  · exact .inl static
  · exact .inr ((mem_from_type (made.sound.state.of_type state data_type typed)).mpr
      ⟨mention, static⟩)

theorem event_mentions {event : E.Ident} {data_type : DataType N}
    (typed : sm.event_type event = some data_type) {lifetime : Lifetime N}
    (mention : lifetime ∈ free_lifetimes data_type) :
    lifetime = .static ∨ lifetime ∈ sm.definitions.event_data.lifetimes_of event := by
  by_cases static : lifetime = .static
  · exact .inl static
  · exact .inr ((mem_from_type (made.sound.event.of_type event data_type typed)).mpr
      ⟨mention, static⟩)

theorem state_stores {state : E.Ident} {data_type : DataType N}
    (typed : sm.state_type state = some data_type) : table.Stores data_type :=
  made.sound.state.types state data_type typed

theorem states_closed : sm.states_item.Closed table.event_generics := by
  have sound := made.sound.state
  unfold states_item state_lifetimes
  rw [lifetime_generics_eq sound.distinct]
  apply (Generics.fits_bare sound.distinct sound.all_named).closed
  · intro data_type among lifetime mention
    obtain ⟨state, _, typed⟩ := List.mem_filterMap.mp among
    rcases state_mentions made typed mention with static | own
    · exact .inl static
    · exact .inr ((sound.all_iff lifetime).mpr ⟨state, own⟩)
  · intro data_type among generic family used
    obtain ⟨state, _, typed⟩ := List.mem_filterMap.mp among
    have unused := state_stores made typed generic family
    rw [used] at unused
    cases unused

theorem events_fit (inside : table.event_generics.Scoped) :
    Generics.Fits table.event_generics true sm.events_generics.lifetimes
      sm.events_generics where
  inside := by
    unfold events_generics
    rw [made.generics]
    exact inside.with_lifetimes made.sound.event.distinct made.sound.event.all_named
  lifetimes_iff _ := Iff.rfl
  families _ := by
    unfold events_generics
    rw [made.generics, Generics.with_families inside]
  bare := nofun

theorem mem_events_lifetimes (inside : table.event_generics.Scoped)
    {lifetime : Lifetime N} :
    lifetime ∈ sm.events_generics.lifetimes ↔
      lifetime ∈ table.event_generics.lifetimes ∨ lifetime ∈ sm.event_lifetimes := by
  unfold events_generics
  rw [made.generics, Generics.mem_with_lifetimes inside]

theorem events_closed (inside : table.event_generics.Scoped) :
    sm.events_item.Closed table.event_generics := by
  apply (events_fit made inside).closed
  · intro data_type among lifetime mention
    obtain ⟨event, _, typed⟩ := List.mem_filterMap.mp among
    rcases event_mentions made typed mention with static | own
    · exact .inl static
    · exact .inr ((mem_events_lifetimes made inside).mpr
        (.inr ((made.sound.event.all_iff lifetime).mpr ⟨event, own⟩)))
  · exact fun _ _ _ _ _ => rfl

omit made in
theorem completion_lifetimes_snoc (events : List E.Ident) (event : E.Ident) :
    sm.completion_lifetimes (events ++ [event]) =
      Lifetimes.extend (sm.completion_lifetimes events)
        (sm.definitions.event_data.lifetimes_of event) := by
  unfold completion_lifetimes DataDefinitions.lifetimes_of
  rw [List.foldl_append, List.foldl_cons, List.foldl_nil]
  cases sm.definitions.event_data.lifetimes event with
  | none => rfl
  | some own => rfl

theorem mem_completion_lifetimes {events : List E.Ident} {lifetime : Lifetime N} :
    lifetime ∈ sm.completion_lifetimes events ↔
      ∃ event ∈ events, lifetime ∈ sm.definitions.event_data.lifetimes_of event := by
  induction events using List.reverseRecOn with
  | nil =>
      constructor
      · intro among
        exact absurd among List.not_mem_nil
      · intro among
        obtain ⟨_, empty, _⟩ := among
        exact absurd empty List.not_mem_nil
  | append_singleton events event hypothesis =>
      rw [completion_lifetimes_snoc, Lifetimes.mem_extend, hypothesis]
      constructor
      · intro cases
        rcases cases with ⟨other, among, own⟩ | ⟨own, _⟩
        · exact ⟨other, List.mem_append_left _ among, own⟩
        · exact ⟨event, List.mem_append_right _ (List.mem_singleton_self _), own⟩
      · intro known
        obtain ⟨other, among, own⟩ := known
        rcases List.mem_append.mp among with among | among
        · exact .inl ⟨other, among, own⟩
        · rw [List.mem_singleton.mp among] at own
          exact .inr ⟨own, made.sound.event.named own⟩

omit made in
theorem nodup_completion_lifetimes (events : List E.Ident) :
    (sm.completion_lifetimes events).Nodup := by
  induction events using List.reverseRecOn with
  | nil => exact List.nodup_nil
  | append_singleton events event hypothesis =>
      rw [completion_lifetimes_snoc]
      exact Lifetimes.nodup_extend hypothesis

theorem completion_origin_closed (inside : table.event_generics.Scoped)
    (completion_events : List E.Ident) :
    (sm.completion_origin_item completion_events).Closed table.event_generics := by
  unfold completion_origin_item
  rw [made.generics]
  apply (Generics.fits_completion inside (nodup_completion_lifetimes completion_events)
    _).closed
  · intro data_type among lifetime mention
    obtain ⟨event, listed, typed⟩ := List.mem_filterMap.mp among
    rcases event_mentions made typed mention with static | own
    · exact .inl static
    · exact .inr ((mem_completion_lifetimes made).mpr ⟨event, listed, own⟩)
  · intro data_type among generic family used
    obtain ⟨event, listed, typed⟩ := List.mem_filterMap.mp among
    have uses := uses_of_family family used
    cases found : completion_events.findSome? fun event =>
        (sm.event_type event).filter (type_uses_event_generics table.event_generics) with
    | none =>
        have none := List.findSome?_eq_none_iff.mp found event listed
        rw [typed, Option.filter_some_pos uses] at none
        cases none
    | some own =>
        obtain ⟨other, _, kept⟩ := List.exists_of_findSome?_eq_some found
        exact (Option.filter_eq_some_iff.mp kept).2
  · intro among
    obtain ⟨event, _, own⟩ := (mem_completion_lifetimes made).mp among
    exact made.sound.event.named own rfl

theorem mem_candidate_lifetimes {in_state out_state event : E.Ident}
    {lifetime : Lifetime N} :
    lifetime ∈ sm.candidate_lifetimes in_state out_state event ↔
      lifetime ∈ sm.definitions.state_data.lifetimes_of in_state ∨
        lifetime ∈ sm.definitions.state_data.lifetimes_of out_state ∨
          lifetime ∈ sm.definitions.event_data.lifetimes_of event := by
  have source := @DataDefinitions.Sound.named _ _ _ _ in_state _ made.sound.state lifetime
  have target := @DataDefinitions.Sound.named _ _ _ _ out_state _ made.sound.state lifetime
  have trigger := @DataDefinitions.Sound.named _ _ _ _ event _ made.sound.event lifetime
  unfold candidate_lifetimes
  rw [Lifetimes.mem_extend, Lifetimes.mem_extend, Lifetimes.mem_extend]
  simp only [List.not_mem_nil, false_or]
  tauto

theorem error_unused {error_type : DataType N}
    (typed : sm.fixed_error_type = some error_type) {generic : GenericParam N}
    (among : generic ∈ table.event_generics.params) :
    type_uses_generic_param error_type generic = false := by
  obtain ⟨transition, listed, kind, given⟩ := made.error error_type typed
  exact made.checked.exception transition listed kind error_type given generic among

/-- No error has a lifetime of the table, so it has none. -/
theorem error_mentions (declares : table.Declares) {error_type : DataType N}
    (typed : sm.fixed_error_type = some error_type) {lifetime : Lifetime N}
    (mention : lifetime ∈ free_lifetimes error_type) : lifetime = .static := by
  rcases declares.errors error_type (made.error error_type typed) lifetime mention with
    static | declared
  · exact static
  · obtain ⟨param, among, rfl⟩ := Generics.mem_lifetimes.mp declared
    have unused := error_unused made typed among
    rw [uses_lifetime_iff.mpr mention] at unused
    cases unused

/-- A callback is closed if what it is given is the data of the states and of the event
of the candidate, or an error. -/
theorem callback_closed (declares : table.Declares) {in_state out_state event : E.Ident}
    {types : List (DataType N)}
    (given : ∀ data_type ∈ types, sm.state_type in_state = some data_type ∨
      sm.state_type out_state = some data_type ∨ sm.event_type event = some data_type ∨
        sm.fixed_error_type = some data_type) :
    (sm.callback_item in_state out_state event types).Closed table.event_generics := by
  have distinct : (sm.candidate_lifetimes in_state out_state event).Nodup :=
    Lifetimes.nodup_extend (Lifetimes.nodup_extend (Lifetimes.nodup_extend List.nodup_nil))
  have named : .static ∉ sm.candidate_lifetimes in_state out_state event := by
    intro among
    rcases (mem_candidate_lifetimes made).mp among with own | own | own
    · exact made.sound.state.named own rfl
    · exact made.sound.state.named own rfl
    · exact made.sound.event.named own rfl
  -- What is given, and the error behind it.
  have all : ∀ data_type ∈ sm.temporary_context_type.toList ++ types ++
      sm.fixed_error_type.toList, sm.temporary_context_type = some data_type ∨
        sm.state_type in_state = some data_type ∨
          sm.state_type out_state = some data_type ∨
            sm.event_type event = some data_type ∨
              sm.fixed_error_type = some data_type := by
    intro data_type among
    rcases List.mem_append.mp among with among | among
    · rcases List.mem_append.mp among with among | among
      · exact .inl (Option.mem_toList.mp among)
      · exact .inr (given data_type among)
    · exact .inr (.inr (.inr (.inr (Option.mem_toList.mp among))))
  unfold callback_item
  rw [made.generics]
  apply (Generics.fits_callback declares.inside distinct named).closed
  · intro data_type among lifetime mention
    rw [Generics.mem_callback_lifetimes, mem_candidate_lifetimes made]
    by_cases static : lifetime = .static
    · exact .inl static
    · right
      rcases all data_type among with typed | typed | typed | typed | typed
      · have declared := (declares.context data_type (made.context ▸ typed) lifetime
          mention).resolve_left static
        exact .inr ⟨static, declared, data_type, typed, mention⟩
      · exact .inl (.inl ((state_mentions made typed mention).resolve_left static))
      · exact .inl (.inr (.inl ((state_mentions made typed mention).resolve_left static)))
      · exact .inl (.inr (.inr ((event_mentions made typed mention).resolve_left static)))
      · exact absurd (error_mentions made declares typed mention) static
  · intro data_type among generic family used
    have uses := uses_of_family family used
    unfold callback_uses temporary_context_uses_event_generics
    rw [Bool.or_eq_true]
    rcases all data_type among with typed | typed | typed | typed | typed
    · rw [typed]
      exact .inr uses
    · have unused := state_stores made typed generic family
      rw [used] at unused
      cases unused
    · have unused := state_stores made typed generic family
      rw [used] at unused
      cases unused
    · rw [typed]
      exact .inl uses
    · have unused := error_unused made typed (List.mem_filter.mp family).1
      rw [used] at unused
      cases unused

theorem guard_closed (declares : table.Declares) (in_state out_state event : E.Ident) :
    (sm.guard_item in_state out_state event).Closed table.event_generics := by
  apply callback_closed made declares
  intro data_type among
  rcases List.mem_append.mp among with among | among
  · exact .inl (Option.mem_toList.mp among)
  · exact .inr (.inr (.inl (Option.mem_toList.mp among)))

theorem action_closed (declares : table.Declares) (in_state out_state event : E.Ident)
    (kind : EventKind) (wildcard last : Bool) :
    (sm.action_item in_state out_state event kind wildcard last).Closed
      table.event_generics := by
  apply callback_closed made declares
  intro data_type among
  rcases List.mem_append.mp among with among | among
  · rcases List.mem_append.mp among with among | among
    · exact .inl (Option.mem_toList.mp among)
    · have typed := Option.mem_toList.mp among
      split at typed
      · exact .inr (.inr (.inr typed))
      · exact .inr (.inr (.inl typed))
  · have typed := Option.mem_toList.mp among
    split at typed
    · cases typed
    · exact .inr (.inl typed)

/-! ### The signature of `process_event` -/

omit made in
theorem filter_apart_lifetimes (outer : Lifetimes N) (params : List (GenericParam N)) :
    (params.filter fun param => !param.lifetime?.any fun lifetime =>
        lifetime ∈ outer).filterMap GenericParam.lifetime? =
      (params.filterMap GenericParam.lifetime?).filter fun lifetime =>
        lifetime ∉ outer := by
  induction params with
  | nil => rfl
  | cons param rest hypothesis =>
      cases param with
      | lifetime param =>
          by_cases own : param.lifetime ∈ outer
          · simp [own, hypothesis]
          · simp [own, hypothesis]
      | type ident bounds => simpa [List.filterMap_cons] using hypothesis
      | const ident data_type => simpa [List.filterMap_cons] using hypothesis

omit made in
theorem filter_apart_families (outer : Lifetimes N) (params : List (GenericParam N)) :
    (params.filter fun param => !param.lifetime?.any fun lifetime =>
        lifetime ∈ outer).filter (!·.is_lifetime) = params.filter (!·.is_lifetime) := by
  rw [List.filter_filter]
  apply List.filter_congr
  intro param _
  cases param with
  | lifetime param => simp
  | type ident bounds => simp
  | const ident data_type => simp

theorem mem_dispatch_lifetimes (inside : table.event_generics.Scoped)
    {lifetime : Lifetime N} :
    lifetime ∈ sm.dispatch_generics.lifetimes ↔
      (lifetime ∈ table.event_generics.lifetimes ∨ lifetime ∈ sm.event_lifetimes) ∧
        lifetime ∉ sm.state_lifetimes := by
  unfold dispatch_generics Generics.lifetimes
  rw [filter_apart_lifetimes, List.mem_filter, made.generics]
  have all := @Generics.mem_with_lifetimes _ _ table.event_generics
    (Lifetimes.without sm.event_lifetimes sm.state_lifetimes) inside lifetime
  unfold Generics.lifetimes at all
  rw [all, Lifetimes.mem_without, decide_eq_true_iff]
  tauto

theorem dispatch_families (inside : table.event_generics.Scoped) :
    sm.dispatch_generics.families = table.event_generics.families := by
  unfold dispatch_generics Generics.families
  rw [filter_apart_families, made.generics]
  exact Generics.with_families inside

omit made in
theorem dispatch_mentions {lifetime : Lifetime N}
    (mention : lifetime ∈ sm.dispatch_generics.mentions) :
    lifetime ∈ (generics_with_lifetimes sm.event_generics
      (Lifetimes.without sm.event_lifetimes sm.state_lifetimes)).mentions := by
  rcases List.mem_append.mp mention with mention | mention
  · obtain ⟨param, among, mention⟩ := List.mem_flatMap.mp mention
    exact List.mem_append_left _
      (List.mem_flatMap.mpr ⟨param, (List.mem_filter.mp among).1, mention⟩)
  · exact List.mem_append_right _ mention

omit made in
theorem free_argument (param : GenericParam N) :
    free_lifetimes param.argument = param.lifetime?.toList := by
  cases param with
  | lifetime param => rfl
  | type ident bounds => rfl
  | const ident data_type => rfl

theorem process_event_closed (declares : table.Declares) :
    sm.process_event_item.Closed table.event_generics := by
  have inside := declares.inside
  have distinct : (Lifetimes.without sm.event_lifetimes sm.state_lifetimes).Nodup :=
    made.sound.event.distinct.filter _
  have named : .static ∉ Lifetimes.without sm.event_lifetimes sm.state_lifetimes := by
    intro among
    exact made.sound.event.all_named (Lifetimes.mem_without.mp among).1
  have whole := inside.with_lifetimes distinct named
  rw [← made.generics] at whole
  -- A lifetime of the table or of an event is a parameter, or the states have it.
  have reached : ∀ lifetime, lifetime ∈ table.event_generics.lifetimes ∨
      lifetime ∈ sm.event_lifetimes →
        lifetime ∈ sm.state_lifetimes ++ sm.dispatch_generics.lifetimes := by
    intro lifetime known
    rw [List.mem_append, mem_dispatch_lifetimes made inside]
    by_cases state : lifetime ∈ sm.state_lifetimes
    · exact .inl state
    · exact .inr ⟨known, state⟩
  refine ⟨?_, ?_, ?_, ?_⟩
  · refine List.nodup_append.mpr ⟨made.sound.state.distinct, ?_, ?_⟩
    · unfold process_event_item dispatch_generics Generics.lifetimes
      rw [filter_apart_lifetimes]
      exact whole.distinct.filter _
    · intro lifetime state other own same
      subst same
      exact ((mem_dispatch_lifetimes made inside).mp own).2 state
  · exact whole.leading.filter _
  · intro lifetime mention
    rcases List.mem_append.mp mention with mention | mention
    · rcases whole.closed lifetime (dispatch_mentions mention) with static | declared
      · exact .inl static
      · refine .inr (reached lifetime ?_)
        rw [made.generics, Generics.mem_with_lifetimes inside] at declared
        rcases declared with declared | declared
        · exact .inl declared
        · exact .inr (Lifetimes.mem_without.mp declared).1
    · obtain ⟨data_type, among, mention⟩ := List.mem_flatMap.mp mention
      rcases List.mem_append.mp among with among | among
      · rcases List.mem_append.mp among with among | among
        · have typed := Option.mem_toList.mp among
          rcases declares.context data_type (made.context ▸ typed) lifetime mention with
            static | declared
          · exact .inl static
          · exact .inr (reached lifetime (.inl declared))
        · obtain ⟨param, listed, rfl⟩ := List.mem_map.mp among
          rw [free_argument] at mention
          have declared : lifetime ∈ sm.events_generics.lifetimes :=
            List.mem_filterMap.mpr ⟨param, listed, Option.mem_toList.mp mention⟩
          exact .inr (reached lifetime ((mem_events_lifetimes made inside).mp declared))
      · exact .inl (error_mentions made declares (Option.mem_toList.mp among) mention)
  · intro generic family data_type _ _
    have given : sm.process_event_item.generics.families = table.event_generics.families :=
      dispatch_families made inside
    rw [given]
    exact List.mem_map_of_mem family

end TypedStateMachine

end Closed

/-- `&'a T` for a lifetime and a named type. -/
def borrowed (lifetime name : Nat) : DataType Nat :=
  .node (.reference (some (.named lifetime)) false)
    [.node (.type_path false false [name]) []]

/-- `<'a, T: 'a>` with `'a` and `T` as 0 and 2. -/
def borrowing_generics : Generics Nat where
  params :=
    [.lifetime { lifetime := .named 0 },
      .type 2 [.node (.lifetime (.named 0)) []]]

/-- A table with `*Idle + event<Take>(&'a T) [guard] / action = Held(&'b u8)`. -/
def borrowing : TypedTable sample Nat where
  transitions :=
    [{ row :=
        { in_state := { ident := .state 0, start := true }
          event := { kind := .normal, ident := .event 0, data_type := true }
          event_type := some (borrowed 0 2)
          guard := some (call true)
          actions := [.acts]
          out_state := { ident := .state 1, data_type := some (borrowed 1 3) } }
       external := true }]
  event_generics := borrowing_generics

theorem borrowing_declares : borrowing.Declares where
  inside :=
    { distinct := List.nodup_singleton _
      named := by decide
      leading := by decide
      closed := by decide
      constants := by
        intro ident data_type among
        cases among with
        | tail _ among =>
            cases among with
            | tail _ among => cases among }
  context _ none := nomatch none
  errors := by
    intro error_type throws
    obtain ⟨transition, among, kind, _⟩ := throws
    cases List.mem_singleton.mp among
    cases kind

def taking : Candidate sample where
  guard := some (call true)
  actions := [.acts]
  eval_actions := []
  process_events := []
  defer := false
  default_output := false
  out_state := .state 1
  internal_transition := false

theorem borrowing_parsed :
    ∃ sm, TypedStateMachine.new in_order borrowing = .ok sm ∧
      sm.parsed.candidates (Name.state 0) (.normal, some (some (Name.event 0))) =
        [taking] ∧
      (sm.action_item (Name.state 0) (Name.state 1) (Name.event 0) .normal false
        true).generics.lifetimes = [.named 0, .named 1] :=
  ⟨_, rfl, rfl, rfl⟩

end SmlRs.Macros
