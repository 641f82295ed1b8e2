/-
Module: SmlRs.Macros.RowGrammar
Purpose: The grammar of the rows of a table on token trees, and the fronts of tokens
  that the parsers of rows match.
Trusted boundary: none
Main exports: NameTokens, InputTokens, TriggerTokens, EventTokens, lex, ItemTokens,
  ActionTokens, OutputTokens, RowTokens
-/
import SmlRs.Macros.RowParser

namespace SmlRs.Macros.Rows

open Lib Names Parse

variable {D X : Type} (syn : Syn D X)

/-! ### States -/

/-- A state as it is spelled. -/
inductive NameTokens : TokenStream → StateSpelling → Prop where
  /-- `"value"_s`, with any suffix. -/
  | literal (value suffix : Text) : NameTokens [.string value suffix] (.literal value)
  | identifier {name : Text} (own : is_keyword name = false) :
      NameTokens [.ident name] (.identifier name)
  /-- `sml::X` -/
  | terminal {joint : Bool} :
      NameTokens
        [.ident "sml".toList, .punct ':' true, .punct ':' joint, .ident ['X']]
        .terminal
  /-- `state<child>` -/
  | composite {child : Text} {opens closes : Bool} (own : is_keyword child = false) :
      NameTokens
        [.ident "state".toList, .punct '<' opens, .ident child, .punct '>' closes]
        (.composite child)

/-- A type between parentheses, or none. -/
inductive DataTokens : TokenStream → Option (SynType D) → Prop where
  | none : DataTokens [] none
  | some {content : TokenStream} {data_type : SynType D}
      (takes : syn.parse_type.Takes content data_type [])
      (supported : data_type.supported = true) :
      DataTokens [.group .parenthesis content] (some data_type)

/-- The child that a spelling names. -/
def child : StateSpelling → Option Text
  | .composite child => some child
  | .literal _ | .identifier _ | .terminal => none

/-- The data of a state: what is written, or the child of a composite state. -/
def state_data (spelling : StateSpelling) (written : Option (SynType D)) :
    Option (SynType D) :=
  written.or ((child spelling).map .of_ident)

/-- A source that is no wildcard. `(H)` is no data. -/
def named_input (spelling : StateSpelling) (written : Option (SynType D)) :
    InputState D where
  start := false
  wildcard := false
  ident := spelling.ident
  source := spelling.source
  data_type :=
    if written.any (·.is_history) then none else state_data spelling written
  composite := child spelling
  history := written.any (·.is_history)

def wildcard_input : InputState D where
  start := false
  wildcard := true
  ident := ['_']
  source := "wildcard:_".toList
  data_type := none
  composite := none
  history := false

/-- A source of a row. A wildcard that is grouped may be marked as the start. -/
inductive InputTokens : TokenStream → InputState D → Prop where
  | wildcard : InputTokens [.ident ['_']] wildcard_input
  | named {name data : TokenStream} {spelling : StateSpelling}
      {written : Option (SynType D)} (named : NameTokens name spelling)
      (carried : DataTokens syn data written) :
      InputTokens (name ++ data) (named_input spelling written)
  | group {content : TokenStream} {state : InputState D}
      (inner : InputTokens content state) (plain : state.start = false) :
      InputTokens [.group .parenthesis content] state
  | start {tokens : TokenStream} {state : InputState D} {joint : Bool}
      (inner : InputTokens tokens state) (plain : state.start = false)
      (apart : tokens ≠ [.ident ['_']]) :
      InputTokens (.punct '*' joint :: tokens) { state with start := true }

def named_output (spelling : StateSpelling) (written : Option (SynType D)) :
    OutputState D where
  ident := spelling.ident
  source := spelling.source
  internal_transition := false
  data_type := state_data spelling written
  composite := child spelling

def internal_output (source : Text) : OutputState D where
  ident := ['_']
  source := source
  internal_transition := true
  data_type := none
  composite := none

/-- The target of a row. -/
inductive OutputTokens : TokenStream → OutputState D → Prop where
  | implicit : OutputTokens [] (internal_output "internal:_".toList)
  | underscore {joint : Bool} :
      OutputTokens [.punct '=' joint, .ident ['_']]
        (internal_output "identifier:_".toList)
  | named {name data : TokenStream} {spelling : StateSpelling}
      {written : Option (SynType D)} {joint : Bool} (named : NameTokens name spelling)
      (carried : DataTokens syn data written) :
      OutputTokens (.punct '=' joint :: (name ++ data)) (named_output spelling written)

/-! ### Triggers -/

/-- The path that names the type of an event, behind its references. -/
def SynType.event_type : SynType D → Option EventType
  | .path none _ segments =>
      segments.getLast?.map fun last =>
        .path (segments.dropLast.map (·.ident)) last.ident []
  | .reference _ elem => elem.event_type.map .reference
  | .path (some _) .. | .array _ | .ptr _ | .slice _ | .tuple _ | .other _ => none

/-- A type in front of the bracket that closes it, which names an event. -/
structure EventTypeTokens (tokens : TokenStream) (closes : Bool)
    (data_type : SynType D) (event_type : EventType) : Prop where
  takes : syn.parse_type.Takes (tokens ++ [.punct '>' closes]) data_type
    [.punct '>' closes]
  named : data_type.event_type = some event_type

/-- A trigger as it is spelled, with the type that it gives to its event. -/
inductive TriggerTokens :
    TokenStream → EventSpelling → Option (SynType D) → Prop where
  | identifier {name : Text} (own : is_keyword name = false) :
      TriggerTokens [.ident name] (.identifier name) none
  | event {tokens : TokenStream} {opens closes : Bool} {data_type : SynType D}
      {event_type : EventType}
      (typed : EventTypeTokens syn tokens closes data_type event_type) :
      TriggerTokens
        (.ident "event".toList :: .punct '<' opens :: (tokens ++ [.punct '>' closes]))
        (.event event_type) (some data_type)
  | unexpected {tokens : TokenStream} {opens closes : Bool} {data_type : SynType D}
      {event_type : EventType}
      (typed : EventTypeTokens syn tokens closes data_type event_type)
      (apart : word_front ['_'] tokens = none) :
      TriggerTokens
        (.ident "unexpected".toList :: .punct '<' opens ::
          (tokens ++ [.punct '>' closes]))
        (.unexpected event_type) none
  | unexpected_event {tokens : TokenStream} {opens closes : Bool}
      {data_type : SynType D} {event_type : EventType}
      (typed : EventTypeTokens syn tokens closes data_type event_type)
      (apart : word_front ['_'] tokens = none) :
      TriggerTokens
        (.ident "unexpected_event".toList :: .punct '<' opens ::
          (tokens ++ [.punct '>' closes]))
        (.unexpected_event event_type) (some data_type)
  | unexpected_any {opens closes : Bool} :
      TriggerTokens
        [.ident "unexpected".toList, .punct '<' opens, .ident ['_'], .punct '>' closes]
        .unexpected_any none
  | unexpected_event_any {opens closes : Bool} :
      TriggerTokens
        [.ident "unexpected_event".toList, .punct '<' opens, .ident ['_'],
          .punct '>' closes]
        .unexpected_event_any none
  | on_entry {opens closes : Bool} :
      TriggerTokens
        [.ident "on_entry".toList, .punct '<' opens, .ident ['_'], .punct '>' closes]
        .on_entry none
  | on_exit {opens closes : Bool} :
      TriggerTokens
        [.ident "on_exit".toList, .punct '<' opens, .ident ['_'], .punct '>' closes]
        .on_exit none
  | completion {name : Text} {opens closes : Bool} (own : is_keyword name = false) :
      TriggerTokens
        [.ident "completion".toList, .punct '<' opens, .ident name, .punct '>' closes]
        (.completion name) none
  | completion_any {opens closes : Bool} :
      TriggerTokens
        [.ident "completion".toList, .punct '<' opens, .ident ['_'],
          .punct '>' closes]
        .completion_any none
  | exception {name : Text} {opens closes : Bool} (own : is_keyword name = false) :
      TriggerTokens
        [.ident "exception".toList, .punct '<' opens, .ident name, .punct '>' closes]
        (.exception name) none
  | exception_any {opens closes : Bool} :
      TriggerTokens
        [.ident "exception".toList, .punct '<' opens, .ident ['_'], .punct '>' closes]
        .exception_any none

/-- The event of a trigger with a type behind it. -/
def spelled_event (spelling : EventSpelling) (explicit written : Option (SynType D)) :
    Event D :=
  let event := spelling.parse
  { ident := event.ident
    source := event.source
    data_type :=
      written.or
        (explicit.or
          (if event.kind = .exception ∧ event.wildcard = false then
            some (.of_ident event.ident)
          else none))
    kind := event.kind
    wildcard := event.wildcard
    external := event.external }

/-- A trigger with its `+`. One that names an event by an identifier may stand behind
`sml::`, and a wildcard has no type behind it. -/
inductive EventTokens : TokenStream → EventSpelling → Event D → Prop where
  | literal {value : Text} {data : TokenStream} {written : Option (SynType D)}
      {joint : Bool} (carried : DataTokens syn data written) :
      EventTokens (.punct '+' joint :: .string value "_e".toList :: data)
        (.literal value) (spelled_event (.literal value) none written)
  | trigger {trigger data : TokenStream} {spelling : EventSpelling}
      {explicit written : Option (SynType D)} {joint : Bool}
      (triggers : TriggerTokens syn trigger spelling explicit)
      (carried : DataTokens syn data written)
      (bare : spelling.parse.wildcard = true → written = none) :
      EventTokens (.punct '+' joint :: (trigger ++ data)) spelling
        (spelled_event spelling explicit written)
  | qualified {trigger data : TokenStream} {spelling : EventSpelling}
      {explicit written : Option (SynType D)} {joint colon : Bool}
      (triggers : TriggerTokens syn trigger spelling explicit)
      (carried : DataTokens syn data written)
      (bare : spelling.parse.wildcard = true → written = none) :
      EventTokens
        (.punct '+' joint :: .ident "sml".toList :: .punct ':' true ::
          .punct ':' colon :: (trigger ++ data))
        spelling (spelled_event spelling explicit written)

/-! ### Guards -/

/-- The tokens of a guard as they are matched. What no guard contains ends them with
a `!` behind which nothing stands. -/
def lex : TokenStream → List (GuardToken Text)
  | .ident name :: rest =>
      if name = "async".toList then .async :: lex rest
      else if is_keyword name then [.bang]
      else .ident name :: lex rest
  | .punct '!' _ :: rest => .bang :: lex rest
  | .punct '&' true :: .punct '&' _ :: rest => .andAnd :: lex rest
  | .punct '|' true :: .punct '|' _ :: rest => .orOr :: lex rest
  | .group .parenthesis stream :: rest => .group (lex stream) :: lex rest
  | [] => []
  | _ => [.bang]

/-- The guard between its brackets, or none. -/
inductive GuardTokens :
    TokenStream → Option (GuardExpression (AsyncIdent Text)) → Prop where
  | none : GuardTokens [] none
  | some {content : TokenStream} {guard : GuardExpression (AsyncIdent Text)}
      (parsed : parse_guard (lex content) = some guard) :
      GuardTokens [.group .bracket content] (some guard)

/-! ### Actions -/

/-- An item behind the `/`. -/
inductive ActionItem (X : Type) where
  | action (callback : AsyncIdent Text)
  | eval (guard : GuardExpression (AsyncIdent Text)) (action : AsyncIdent Text)
  | defer
  | process (event : X)

/-- What an item adds to a sequence. Every item counts for the position. -/
def ActionSequence.add (sequence : ActionSequence X) (item : ActionItem X) :
    ActionSequence X :=
  let next := { sequence with position := sequence.position + 1 }
  match item with
  | .action callback => { next with actions := sequence.actions ++ [callback] }
  | .eval guard action =>
      { next with
        eval_actions := sequence.eval_actions ++
          [{ position := sequence.position, guard := guard, action := action }] }
  | .defer => { next with defer := true }
  | .process event =>
      { next with process_events := sequence.process_events ++ [event] }

/-- A callback with its `async`. -/
inductive CallbackTokens : TokenStream → AsyncIdent Text → Prop where
  | plain {ident : Text} (own : is_keyword ident = false) :
      CallbackTokens [.ident ident] ⟨ident, false⟩
  | async {ident : Text} (own : is_keyword ident = false) :
      CallbackTokens [.ident "async".toList, .ident ident] ⟨ident, true⟩

/-- An item that may stand alone. -/
inductive SingleTokens : TokenStream → ActionItem X → Prop where
  | action {tokens : TokenStream} {callback : AsyncIdent Text}
      (called : CallbackTokens tokens callback)
      (apart : callback.ident ≠ "defer".toList) :
      SingleTokens tokens (.action callback)
  | defer : SingleTokens [.ident "defer".toList] .defer
  | process {content : TokenStream} {event : X}
      (takes : syn.parse_expr.Takes content event []) :
      SingleTokens [.ident "process".toList, .group .parenthesis content]
        (.process event)

/-- An item of a sequence. -/
inductive ItemTokens : TokenStream → ActionItem X → Prop where
  | single {tokens : TokenStream} {item : ActionItem X}
      (alone : SingleTokens syn tokens item) : ItemTokens tokens item
  | eval {content tokens : TokenStream} {guard : GuardExpression (AsyncIdent Text)}
      {action : AsyncIdent Text} {joint : Bool}
      (parsed : parse_guard (lex content) = some guard)
      (called : CallbackTokens tokens action) :
      ItemTokens
        (.ident "eval".toList :: .group .bracket content :: .punct '/' joint :: tokens)
        (.eval guard action)

/-- Items with a comma between them, or behind each of them. -/
inductive ItemsTokens : TokenStream → List (ActionItem X) → Prop where
  | nil : ItemsTokens [] []
  | last {tokens : TokenStream} {item : ActionItem X}
      (only : ItemTokens syn tokens item) : ItemsTokens tokens [item]
  | more {tokens rest : TokenStream} {item : ActionItem X}
      {items : List (ActionItem X)} {joint : Bool} (first : ItemTokens syn tokens item)
      (further : ItemsTokens rest items) :
      ItemsTokens (tokens ++ .punct ',' joint :: rest) (item :: items)

/-- What stands behind the `/` of a row, if it has one. -/
inductive ActionTokens : TokenStream → List (ActionItem X) → Prop where
  | none : ActionTokens [] []
  | single {tokens : TokenStream} {item : ActionItem X} {joint : Bool}
      (alone : SingleTokens syn tokens item) :
      ActionTokens (.punct '/' joint :: tokens) [item]
  | sequence {content : TokenStream} {items : List (ActionItem X)} {joint : Bool}
      (inner : ItemsTokens syn content items) :
      ActionTokens [.punct '/' joint, .group .parenthesis content] items

/-! ### Rows -/

/-- Sources with a `|` between them. -/
inductive SourcesTokens : TokenStream → List (InputState D) → Prop where
  | last {tokens : TokenStream} {state : InputState D}
      (only : InputTokens syn tokens state) : SourcesTokens tokens [state]
  | more {tokens rest : TokenStream} {state : InputState D}
      {states : List (InputState D)} {joint : Bool}
      (first : InputTokens syn tokens state) (further : SourcesTokens rest states) :
      SourcesTokens (tokens ++ .punct '|' joint :: rest) (state :: states)

/-- The row with its parts. -/
def assembled (in_states : List (InputState D)) (event : Event D)
    (guard : Option (GuardExpression (AsyncIdent Text))) (items : List (ActionItem X))
    (out_state : OutputState D) : StateTransitions D X :=
  let sequence := items.foldl ActionSequence.add {}
  { in_states := in_states
    event := event
    guard := guard
    action := sequence.actions.head?
    additional_actions := sequence.actions.tail
    process_events := sequence.process_events
    defer := sequence.defer
    eval_actions := sequence.eval_actions
    out_state := out_state }

/-- A row of a table. A wildcard is its only source. -/
inductive RowTokens : TokenStream → StateTransitions D X → Prop where
  | row {sources trigger condition actions target : TokenStream}
      {in_states : List (InputState D)} {spelling : EventSpelling} {event : Event D}
      {guard : Option (GuardExpression (AsyncIdent Text))}
      {items : List (ActionItem X)} {out_state : OutputState D}
      (from_states : SourcesTokens syn sources in_states)
      (alone : 1 < in_states.length → ∀ state ∈ in_states, state.wildcard = false)
      (triggered : EventTokens syn trigger spelling event)
      (guarded : GuardTokens condition guard)
      (acted : ActionTokens syn actions items)
      (reached : OutputTokens syn target out_state) :
      RowTokens (sources ++ (trigger ++ (condition ++ (actions ++ target))))
        (assembled in_states event guard items out_state)

/-! ### Fronts of the input -/

section Fronts

variable {input rest : TokenStream} {name : Text} {char : Char}

theorem ident_front_eq :
    ident_front input = some (name, rest) ↔
      input = .ident name :: rest ∧ is_keyword name = false := by
  unfold ident_front
  split
  · rename_i own behind
    split
    · rename_i keyword
      constructor
      · intro found
        cases found
      · intro both
        obtain ⟨same, apart⟩ := both
        cases same
        exact absurd keyword (by simp [apart])
    · rename_i apart
      rw [Bool.not_eq_true] at apart
      constructor
      · intro found
        cases found
        exact ⟨rfl, apart⟩
      · intro both
        cases both.1
        rfl
  · rename_i other
    constructor
    · intro found
      cases found
    · intro both
      exact absurd both.1 (other name rest)

theorem word_front_eq {word : Text} {own : Unit} :
    word_front word input = some (own, rest) ↔ input = .ident word :: rest := by
  unfold word_front
  split
  · simp only [Option.ite_none_right_eq_some, Option.some.injEq, Prod.mk.injEq,
      true_and, List.cons.injEq, TokenTree.ident.injEq]
  · rename_i other
    constructor
    · intro found
      cases found
    · intro same
      exact absurd same (other _ _)

theorem punct_front_eq {own : Unit} :
    punct_front char input = some (own, rest) ↔
      ∃ joint, input = .punct char joint :: rest := by
  unfold punct_front
  split
  · rename_i own joint behind
    constructor
    · intro found
      split at found
      · rename_i same
        cases found
        exact ⟨joint, by rw [same]⟩
      · cases found
    · intro same
      obtain ⟨joint, same⟩ := same
      cases same
      exact if_pos rfl
  · rename_i other
    constructor
    · intro found
      cases found
    · intro same
      obtain ⟨joint, same⟩ := same
      exact absurd same (other _ _ _)

theorem pair_front_eq {own : Unit} :
    pair_front char input = some (own, rest) ↔
      ∃ joint, input = .punct char true :: .punct char joint :: rest := by
  unfold pair_front
  split
  · rename_i own other joint behind
    constructor
    · intro found
      split at found
      · rename_i same
        cases found
        exact ⟨joint, by rw [same.1, same.2]⟩
      · cases found
    · intro same
      obtain ⟨joint, same⟩ := same
      cases same
      exact if_pos ⟨rfl, rfl⟩
  · rename_i other
    constructor
    · intro found
      cases found
    · intro same
      obtain ⟨joint, same⟩ := same
      exact absurd same (other _ _ _ _)

theorem string_front_eq {value suffix : Text} :
    string_front input = some ((value, suffix), rest) ↔
      input = .string value suffix :: rest := by
  unfold string_front
  split
  · simp only [Option.some.injEq, Prod.mk.injEq, List.cons.injEq,
      TokenTree.string.injEq]
  · rename_i other
    constructor
    · intro found
      cases found
    · intro same
      exact absurd same (other _ _ _)

theorem group_front_eq {delimiter : Delimiter} {content : TokenStream} :
    group_front delimiter input = some (content, rest) ↔
      input = .group delimiter content :: rest := by
  unfold group_front
  split
  · rename_i own stream behind
    constructor
    · intro found
      split at found
      · rename_i same
        cases found
        rw [same]
      · cases found
    · intro same
      cases same
      exact if_pos rfl
  · rename_i other
    constructor
    · intro found
      cases found
    · intro same
      exact absurd same (other _ _ _)

@[simp] theorem punct_front_cons {joint : Bool} :
    punct_front char (.punct char joint :: rest) = some ((), rest) :=
  punct_front_eq.mpr ⟨joint, rfl⟩

@[simp] theorem pair_front_cons {joint : Bool} :
    pair_front char (.punct char true :: .punct char joint :: rest) = some ((), rest) :=
  pair_front_eq.mpr ⟨joint, rfl⟩

@[simp] theorem word_front_cons {word : Text} :
    word_front word (.ident word :: rest) = some ((), rest) :=
  word_front_eq.mpr rfl

theorem punct_front_other {own : Char} {joint : Bool} (other : own ≠ char) :
    punct_front char (.punct own joint :: rest) = none :=
  if_neg other

theorem pair_front_other {own : Char} {joint : Bool} (other : own ≠ char) :
    pair_front char (.punct own joint :: rest) = none := by
  unfold pair_front
  split
  · rename_i same
    cases same
    exact if_neg fun both => other both.1
  · rfl

theorem word_front_other {word : Text} (other : name ≠ word) :
    word_front word (.ident name :: rest) = none :=
  if_neg other

@[simp] theorem group_front_cons {delimiter : Delimiter} {content : TokenStream} :
    group_front delimiter (.group delimiter content :: rest) = some (content, rest) :=
  group_front_eq.mpr rfl

theorem ident_front_cons (own : is_keyword name = false) :
    ident_front (.ident name :: rest) = some (name, rest) :=
  ident_front_eq.mpr ⟨rfl, own⟩

theorem isSome_of_front {α : Type} {front : TokenStream → Option (α × TokenStream)}
    {value : α} (found : front input = some (value, rest)) :
    (front input).isSome = true := by
  rw [found]
  rfl

theorem front_of_isSome {α : Type} {front : TokenStream → Option (α × TokenStream)}
    (found : (front input).isSome = true) :
    ∃ value rest, front input = some (value, rest) := by
  obtain ⟨both, same⟩ := Option.isSome_iff_exists.mp found
  exact ⟨both.1, both.2, same⟩

end Fronts

end SmlRs.Macros.Rows
