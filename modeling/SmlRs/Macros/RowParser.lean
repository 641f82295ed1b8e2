/-
Module: SmlRs.Macros.RowParser
Purpose: The parser of the rows of a table, on token trees: states, triggers, guards,
  actions and targets.
Trusted boundary: syn's parsers of types and expressions, of which a type is read off
  the front of the input and no further than to a closing angle bracket; groups without
  delimiters and spans are left out.
Main exports: TokenTree, Syn, InputState.parse, Event.parse, GuardExpression.parse,
  OutputState.parse, StateTransitions.parse, parse_row
-/
import SmlRs.Lib.Parse
import SmlRs.Macros.GuardParser
import SmlRs.Macros.Names

namespace SmlRs.Macros.Rows

open Lib Names

/-! ### Tokens -/

inductive Delimiter where
  | parenthesis
  | brace
  | bracket
deriving DecidableEq

/-- `TokenTree`. A punctuation that is joint is followed by another at once. -/
inductive TokenTree where
  | ident (name : Text)
  | punct (char : Char) (joint : Bool)
  /-- A string literal. -/
  | string (value suffix : Text)
  /-- Any other literal. -/
  | literal (text : Text)
  | group (delimiter : Delimiter) (stream : List TokenTree)

abbrev TokenStream := List TokenTree

namespace TokenTree

/-- How deep the groups of a token are nested. -/
def nesting : TokenTree → Nat
  | .group _ stream => nestings stream + 1
  | .ident _ | .punct .. | .string .. | .literal _ => 0
where
  /-- How deep the groups of some tokens are nested. -/
  nestings : List TokenTree → Nat
    | [] => 0
    | token :: rest => max (nesting token) (nestings rest)

end TokenTree

/-- The words that are no identifiers to syn. -/
def keywords : List String :=
  ["_", "abstract", "as", "async", "await", "become", "box", "break", "const",
    "continue", "crate", "do", "dyn", "else", "enum", "extern", "false", "final", "fn",
    "for", "if", "impl", "in", "let", "loop", "macro", "match", "mod", "move", "mut",
    "override", "priv", "pub", "ref", "return", "Self", "self", "static", "struct",
    "super", "trait", "true", "try", "type", "typeof", "unsafe", "unsized", "use",
    "virtual", "where", "while", "yield"]

def is_keyword (name : Text) : Bool :=
  keywords.any fun word => word.toList = name

/-- `Ident` -/
def ident_front : TokenStream → Option (Text × TokenStream)
  | .ident name :: rest => if is_keyword name then none else some (name, rest)
  | _ => none

/-- A keyword. -/
def word_front (word : Text) : TokenStream → Option (Unit × TokenStream)
  | .ident name :: rest => if name = word then some ((), rest) else none
  | _ => none

/-- A single character, whatever follows it. -/
def punct_front (char : Char) : TokenStream → Option (Unit × TokenStream)
  | .punct own _ :: rest => if own = char then some ((), rest) else none
  | _ => none

/-- A character twice, with nothing in between. -/
def pair_front (char : Char) : TokenStream → Option (Unit × TokenStream)
  | .punct own true :: .punct other _ :: rest =>
      if own = char ∧ other = char then some ((), rest) else none
  | _ => none

/-- `LitStr` -/
def string_front : TokenStream → Option ((Text × Text) × TokenStream)
  | .string value suffix :: rest => some ((value, suffix), rest)
  | _ => none

def group_front (delimiter : Delimiter) :
    TokenStream → Option (TokenStream × TokenStream)
  | .group own stream :: rest => if own = delimiter then some (stream, rest) else none
  | _ => none

/-! ### Errors and types -/

inductive RowError where
  /-- A token that syn expects is not there. -/
  | expected
  /-- "unexpected token", of what is left over at the end or in a group. -/
  | leftover
  /-- An error of the parser itself. -/
  | row (message : String)
deriving DecidableEq

abbrev Parser (α : Type) := Parse TokenTree RowError α

/-- `PathSegment`. Its arguments are not looked at. -/
structure PathSegment (D : Type) where
  ident : Text
  arguments : Option D := none
deriving DecidableEq

/-- `Type`, as far as it is looked at. -/
inductive SynType (D : Type) where
  | path (qself : Option D) (leading_colon : Bool) (segments : List (PathSegment D))
  | reference (lifetime : D) (elem : SynType D)
  | array (written : D)
  | ptr (written : D)
  | slice (written : D)
  | tuple (written : D)
  | other (written : D)
deriving DecidableEq

namespace SynType

variable {D : Type}

/-- The types that states and events may carry. -/
def supported : SynType D → Bool
  | path .. | reference .. | array _ | ptr _ | slice _ | tuple _ => true
  | other _ => false

/-- `type_ident`. -/
def type_ident : SynType D → Option Text
  | path none _ segments => segments.getLast?.map (·.ident)
  | reference _ elem => elem.type_ident
  | path (some _) .. | array _ | ptr _ | slice _ | tuple _ | other _ => none

/-- The `H` of `state(H)`. -/
def is_history : SynType D → Bool
  | path none false [segment] => segment.arguments.isNone && segment.ident = ['H']
  | _ => false

/-- `parse_quote!(#ident)`. -/
def of_ident (ident : Text) : SynType D := path none false [{ ident := ident }]

end SynType

/-- syn's parsers of types and of expressions. -/
structure Syn (D X : Type) where
  parse_type : Parser (SynType D)
  parse_expr : Parser X
  /-- A type is a front of the input. -/
  type_front : ∀ {input data_type rest}, parse_type.Takes input data_type rest →
    ∃ front, input = front ++ rest
  /-- Nothing behind a closing angle bracket is looked at. -/
  type_closed : ∀ {front rest more joint data_type},
    parse_type.Takes (front ++ .punct '>' joint :: rest) data_type
        (.punct '>' joint :: rest) →
      parse_type.Takes (front ++ .punct '>' joint :: more) data_type
        (.punct '>' joint :: more)

open Parse

variable {D X : Type} (syn : Syn D X)

/-- A parser between angle brackets. -/
def angled {α : Type} (parse : Parser α) : Parser α := do
  expect (punct_front '<') .expected
  let value ← parse
  expect (punct_front '>') .expected
  pure value

/-! ### States -/

/-- The locals `ident`, `source` and `composite` of the parsers of states. -/
structure NamedState where
  ident : Text
  source : Text
  composite : Option Text := none
deriving DecidableEq

/-- `"value"_s` or an identifier. -/
def parse_name : Parser NamedState := do
  if ← peek string_front then
    let (value, _) ← expect string_front .expected
    pure { ident := state_ident value, source := "literal:".toList ++ value }
  else
    let ident ← expect ident_front .expected
    pure { ident := ident, source := "identifier:".toList ++ ident }

/-- The `<child>` of `state<child>`. -/
def parse_composite (named : NamedState) : Parser NamedState := do
  if named.ident = "state".toList && (← peek (punct_front '<')) then
    let child ← angled (expect ident_front .expected)
    pure
      { ident := state_ident child
        source := "composite:".toList ++ child
        composite := some child }
  else pure named

/-- The `::X` of `sml::X`. -/
def parse_terminal (named : NamedState) : Parser NamedState := do
  if named.ident = "sml".toList && (← peek (pair_front ':')) then
    expect (pair_front ':') .expected
    let ident ← expect ident_front .expected
    if ident ≠ "X".toList then
      fail (.row "only the terminal state `sml::X` may be namespace-qualified")
    else
      pure { named with ident := ident, source := "identifier:".toList ++ ident }
  else pure named

/-- The name of a state, given what reads its first word. -/
def parse_named (first : Parser NamedState) : Parser NamedState := do
  let named ← first
  let named ← parse_composite named
  parse_terminal named

/-- A type between parentheses that a state or an event carries. -/
def parse_data_type (invalid : String) : Parser (SynType D) :=
  within (group_front .parenthesis) .expected do
    let data_type ← syn.parse_type
    if data_type.supported then pure data_type else fail (.row invalid)

/-- The type that a target or an event carries, or what is inferred. -/
def parse_data (invalid : String) (inferred : Option (SynType D)) :
    Parser (Option (SynType D)) := do
  if ← peek (group_front .parenthesis) then
    let data_type ← parse_data_type syn invalid
    pure (some data_type)
  else pure inferred

structure InputState (D : Type) where
  start : Bool
  wildcard : Bool
  ident : Text
  source : Text
  data_type : Option (SynType D)
  composite : Option Text
  history : Bool
deriving DecidableEq

/-- What an input state carries: its type, and whether it is `H`. -/
def InputState.parse_data (wildcard : Bool) (composite : Option Text) :
    Parser (Option (SynType D) × Bool) := do
  if ← peek (group_front .parenthesis) then
    within (group_front .parenthesis) .expected do
      let data_type ← syn.parse_type
      if wildcard then
        fail (.row "Wildcard states cannot have data associated with it.")
      else if !data_type.supported then
        fail (.row "This is an invalid type for states.")
      else if data_type.is_history then pure (none, true)
      else pure (some data_type, false)
  else pure (composite.map .of_ident, false)

/-- `InputState::parse`, for groups nested less than `depth` deep. -/
def InputState.parse : Nat → Parser (InputState D)
  | 0 => fail .expected
  | depth + 1 => do
      let start ← accept (punct_front '*')
      if ← peek (group_front .parenthesis) then
        let grouped ← within (group_front .parenthesis) .expected do
          let grouped ← InputState.parse depth
          if !(← is_empty) || grouped.start then
            fail (.row
              "a parenthesized state must contain exactly one state expression")
          else pure grouped
        pure { grouped with start := start }
      else
        let wildcard ← accept (word_front ['_'])
        if start && wildcard then
          fail (.row "Wildcards can't be used as the starting state.")
        else
          let named ← parse_named
            (if wildcard then
              pure { ident := ['_'], source := "wildcard:_".toList }
            else parse_name)
          let (data_type, history) ← InputState.parse_data syn wildcard named.composite
          pure
            { start := start
              wildcard := wildcard
              ident := named.ident
              source := named.source
              data_type := data_type
              composite := named.composite
              history := history }

structure OutputState (D : Type) where
  ident : Text
  source : Text
  internal_transition : Bool
  data_type : Option (SynType D)
  composite : Option Text
deriving DecidableEq

/-- `OutputState::parse`. -/
def OutputState.parse : Parser (OutputState D) := do
  if ← peek (punct_front '=') then
    expect (punct_front '=') .expected
    let internal_transition ← peek (word_front ['_'])
    let named ← parse_named
      (if internal_transition then do
        expect (word_front ['_']) .expected
        pure { ident := ['_'], source := "identifier:_".toList }
      else parse_name)
    let inferred := named.composite.map .of_ident
    let data_type ←
      (if internal_transition then pure inferred
      else parse_data syn "This is an invalid type for states." inferred)
    pure
      { ident := named.ident
        source := named.source
        internal_transition := internal_transition
        data_type := data_type
        composite := named.composite }
  else
    pure
      { ident := ['_']
        source := "internal:_".toList
        internal_transition := true
        data_type := none
        composite := none }

/-! ### Events -/

structure Event (D : Type) where
  ident : Text
  source : Text
  data_type : Option (SynType D)
  kind : EventKind
  wildcard : Bool
  external : Bool
deriving DecidableEq

/-- `external_event_type`. -/
def external_event_type : Parser (Text × SynType D) := do
  let event_type ← syn.parse_type
  match event_type.type_ident with
  | some ident => pure (ident, event_type)
  | none =>
      fail (.row ("typed event triggers require a named Rust type path or " ++
        "reference, such as `Event<T>` or `&'a mut Event<T>`"))

/-- `_`, or what a parser reads. -/
def parse_any {α : Type} (parse : Parser α) : Parser (Option α) := do
  if ← peek (word_front ['_']) then
    expect (word_front ['_']) .expected
    pure none
  else
    let value ← parse
    pure (some value)

namespace Event

/-- `"value"_e` or an identifier, with its source. -/
def parse_first : Parser (Text × Text) := do
  if ← peek string_front then
    let (value, suffix) ← expect string_front .expected
    if suffix ≠ "_e".toList then
      fail (.row "named events use the sml.cpp suffix `_e`")
    else pure (state_ident value, "literal:".toList ++ value)
  else
    let ident ← expect ident_front .expected
    pure (ident, "identifier:".toList ++ ident)

/-- The identifier behind `sml::`. -/
def parse_qualified (first source : Text) : Parser (Text × Text) := do
  if first = "sml".toList && (← peek (pair_front ':')) then
    expect (pair_front ':') .expected
    let first ← expect ident_front .expected
    pure (first, "identifier:".toList ++ first)
  else pure (first, source)

/-- `event<T>` -/
def parse_external : Parser (Event D) := do
  let (ident, event_type) ← angled (external_event_type syn)
  pure
    { ident := ident
      source := "external:".toList ++ ident
      data_type := some event_type
      kind := .normal
      wildcard := false
      external := true }

/-- `unexpected<T>` and `unexpected_event<T>` -/
def parse_unexpected (first source : Text) : Parser (Event D) := do
  match ← angled (parse_any (external_event_type syn)) with
  | none =>
      pure
        { ident := "__AnyEvent".toList
          source := source
          data_type := none
          kind := .unexpected
          wildcard := true
          external := false }
  | some (ident, event_type) =>
      if first = "unexpected_event".toList then
        pure
          { ident := ident
            source := "external-unexpected:".toList ++ ident
            data_type := some event_type
            kind := .unexpected
            wildcard := false
            external := true }
      else
        pure
          { ident := ident
            source := "unexpected:".toList ++ ident
            data_type := none
            kind := .unexpected
            wildcard := false
            external := false }

/-- `on_entry<_>` and `on_exit<_>` -/
def parse_lifecycle (first : Text) : Parser (Event D) := do
  angled (expect (word_front ['_']) .expected)
  pure
    { ident := first
      source := "lifecycle:".toList ++ first
      data_type := none
      kind := if first = "on_entry".toList then .entry else .exit
      wildcard := false
      external := false }

/-- `completion<E>` and `exception<E>` -/
def parse_origin (first source any : Text) (kind : EventKind) : Parser (Event D) := do
  match ← angled (parse_any (expect ident_front .expected)) with
  | none =>
      pure
        { ident := any
          source := source
          data_type := none
          kind := kind
          wildcard := true
          external := false }
  | some ident =>
      pure
        { ident := ident
          source := first ++ ':' :: ident
          data_type := none
          kind := kind
          wildcard := false
          external := false }

/-- The trigger of a row, with the explicit type of the event as its data. -/
def parse_trigger (first source : Text) : Parser (Event D) := do
  if first = "event".toList && (← peek (punct_front '<')) then parse_external syn
  else if (first = "unexpected".toList || first = "unexpected_event".toList) &&
      (← peek (punct_front '<')) then
    parse_unexpected syn first source
  else if (first = "on_entry".toList || first = "on_exit".toList) &&
      (← peek (punct_front '<')) then
    parse_lifecycle first
  else if first = "completion".toList && (← peek (punct_front '<')) then
    parse_origin first source "__AnyCompletion".toList .completion
  else if first = "exception".toList && (← peek (punct_front '<')) then
    parse_origin first source "__AnyException".toList .exception
  else
    pure
      { ident := first
        source := source
        data_type := none
        kind := .normal
        wildcard := false
        external := false }

/-- What is no literal gets its identifier as its source, apart from the kinds that
are not declared. -/
def with_source (event : Event D) : Event D :=
  if !"literal:".toList.isPrefixOf event.source && !event.wildcard &&
      !(event.kind = .entry || event.kind = .exit || event.kind = .exception) then
    { event with source := "identifier:".toList ++ event.ident }
  else event

/-- The data of a trigger that has no type behind it. -/
def inferred (event : Event D) : Option (SynType D) :=
  match event.data_type with
  | some explicit_type => some explicit_type
  | none =>
      if event.external || (event.kind = .exception && !event.wildcard) then
        some (.of_ident event.ident)
      else none

/-- The type that stands behind a trigger. -/
def parse_carried (event : Event D) : Parser (Event D) := do
  let data_type ← parse_data syn "This is an invalid type for events." event.inferred
  if event.wildcard && data_type.isSome then
    fail (.row "A wildcard trigger cannot carry event data.")
  else pure { event with data_type := data_type }

/-- `Event::parse`. -/
def parse : Parser (Event D) := do
  expect (punct_front '+') .expected
  let (first, source) ← parse_first
  let (first, source) ← parse_qualified first source
  let event ← parse_trigger syn first source
  parse_carried syn event.with_source

end Event

/-! ### Guards -/

namespace GuardExpression

section Parser

variable (content : Parser (GuardExpression (AsyncIdent Text)))

/-- `parse_primary`, given what parses the content of a group. -/
def parse_primary : Parser (GuardExpression (AsyncIdent Text)) := do
  if ← peek (group_front .parenthesis) then
    let inner ← within (group_front .parenthesis) .expected content
    pure (.group inner)
  else if ← peek (word_front "async".toList) then
    expect (word_front "async".toList) .expected
    let ident ← expect ident_front .expected
    pure (.guard ⟨ident, true⟩)
  else
    let ident ← expect ident_front .expected
    pure (.guard ⟨ident, false⟩)

/-- `parse_not`. -/
def parse_not : Parser (GuardExpression (AsyncIdent Text)) := do
  if ← peek (punct_front '!') then
    expect (punct_front '!') .expected
    let inner ← parse_primary content
    pure (.not inner)
  else parse_primary content

/-- A loop that goes on as long as a character stands ahead twice. -/
def parse_operands (operator : Char)
    (operand : Parser (GuardExpression (AsyncIdent Text)))
    (build : GuardExpression (AsyncIdent Text) → GuardExpression (AsyncIdent Text) →
      GuardExpression (AsyncIdent Text)) :
    Nat → GuardExpression (AsyncIdent Text) →
      Parser (GuardExpression (AsyncIdent Text))
  | 0, left => pure left
  | fuel + 1, left => do
      if ← peek (pair_front operator) then
        expect (pair_front operator) .expected
        let right ← operand
        parse_operands operator operand build fuel (build left right)
      else pure left

/-- `parse_and`. Each turn of its loop reads a token. -/
def parse_and : Parser (GuardExpression (AsyncIdent Text)) := do
  let left ← parse_not content
  let fuel ← look List.length
  parse_operands '&' (parse_not content) .and fuel left

/-- The body of `parse_or`. -/
def parse_alternatives : Parser (GuardExpression (AsyncIdent Text)) := do
  let left ← parse_and content
  let fuel ← look List.length
  parse_operands '|' (parse_and content) .or fuel left

end Parser

/-- `parse_or`, for groups nested less than `depth` deep. -/
def parse_or : Nat → Parser (GuardExpression (AsyncIdent Text))
  | 0 => fail .expected
  | depth + 1 => parse_alternatives (parse_or depth)

/-- `GuardExpression::parse`. -/
def parse : Parser (GuardExpression (AsyncIdent Text)) := do
  let depth ← look TokenTree.nesting.nestings
  parse_or (depth + 1)

/-- The guard between brackets, if there is one. -/
def parse_condition : Parser (Option (GuardExpression (AsyncIdent Text))) := do
  if ← peek (group_front .bracket) then
    let guard ← within (group_front .bracket) .expected parse
    pure (some guard)
  else pure none

end GuardExpression

/-! ### Actions -/

structure EvalAction where
  position : Nat
  guard : GuardExpression (AsyncIdent Text)
  action : AsyncIdent Text

/-- The locals of `StateTransitions::parse` for what stands behind the `/`. -/
structure ActionSequence (X : Type) where
  actions : List (AsyncIdent Text) := []
  process_events : List X := []
  defer : Bool := false
  eval_actions : List EvalAction := []
  position : Nat := 0

namespace ActionSequence

variable (sequence : ActionSequence X)

/-- `async`, and the identifier behind it. -/
def parse_callback : Parser (AsyncIdent Text) := do
  let is_async ← accept (word_front "async".toList)
  let ident ← expect ident_front .expected
  pure { ident := ident, is_async := is_async }

/-- `defer`. -/
def parse_defer (is_async : Bool) : Parser (ActionSequence X) :=
  if is_async then fail (.row "`defer` is a queue operation, not an async callback")
  else pure { sequence with defer := true }

/-- The `(event)` of `process(event)`. -/
def parse_process (is_async : Bool) : Parser (ActionSequence X) := do
  if is_async then
    fail (.row "`process(...)` is a queue operation, not an async callback")
  else
    let event ← within (group_front .parenthesis) .expected syn.parse_expr
    pure { sequence with process_events := sequence.process_events ++ [event] }

/-- The `[guard] / action` of an `eval`. -/
def parse_eval (is_async : Bool) : Parser (ActionSequence X) := do
  if is_async then
    fail (.row "`eval` is an action-sequence operator, not an async callback")
  else
    let guard ← within (group_front .bracket) .expected GuardExpression.parse
    expect (punct_front '/') .expected
    let action ← parse_callback
    pure
      { sequence with
        eval_actions := sequence.eval_actions ++
          [{ position := sequence.position, guard := guard, action := action }] }

def push (callback : AsyncIdent Text) : ActionSequence X :=
  { sequence with actions := sequence.actions ++ [callback] }

/-- What stands behind the word that begins an action. -/
def parse_operation (callback : AsyncIdent Text) : Parser (ActionSequence X) := do
  if callback.ident = "defer".toList then sequence.parse_defer callback.is_async
  else if callback.ident = "process".toList &&
      (← peek (group_front .parenthesis)) then
    sequence.parse_process syn callback.is_async
  else pure (sequence.push callback)

/-- What stands behind the word that begins an item of a sequence. -/
def parse_sequenced (callback : AsyncIdent Text) : Parser (ActionSequence X) := do
  if callback.ident = "eval".toList && (← peek (group_front .bracket)) then
    sequence.parse_eval callback.is_async
  else sequence.parse_operation syn callback

/-- An item of a sequence between parentheses. -/
def parse_item : Parser (ActionSequence X) := do
  let callback ← parse_callback
  let sequence ← sequence.parse_sequenced syn callback
  pure { sequence with position := sequence.position + 1 }

/-- The loop over the items between parentheses. Each turn reads a token. -/
def parse_items : Nat → ActionSequence X → Parser (ActionSequence X)
  | 0, sequence => pure sequence
  | fuel + 1, sequence => do
      if ← is_empty then pure sequence
      else
        let sequence ← sequence.parse_item syn
        if ← is_empty then pure sequence
        else
          expect (punct_front ',') .expected
          parse_items fuel sequence

/-- An action that stands alone. -/
def parse_single : Parser (ActionSequence X) := do
  let callback ← parse_callback
  sequence.parse_operation syn callback

/-- What stands behind the `/`, if there is one. -/
def parse : Parser (ActionSequence X) := do
  if ← accept (punct_front '/') then
    if ← peek (group_front .parenthesis) then
      within (group_front .parenthesis) .expected do
        let fuel ← look List.length
        parse_items syn fuel {}
    else parse_single syn {}
  else pure {}

end ActionSequence

/-! ### Rows -/

structure StateTransitions (D X : Type) where
  in_states : List (InputState D)
  event : Event D
  guard : Option (GuardExpression (AsyncIdent Text))
  action : Option (AsyncIdent Text)
  additional_actions : List (AsyncIdent Text)
  process_events : List X
  defer : Bool
  eval_actions : List EvalAction
  out_state : OutputState D

namespace StateTransitions

/-- The loop over the sources. Each turn reads a token. -/
def parse_in_states : Nat → Parser (List (InputState D))
  | 0 => fail .expected
  | fuel + 1 => do
      let depth ← look TokenTree.nesting.nestings
      let in_state ← InputState.parse syn (depth + 1)
      if ← accept (punct_front '|') then
        let others ← parse_in_states fuel
        pure (in_state :: others)
      else pure [in_state]

/-- `StateTransitions::parse`. -/
def parse : Parser (StateTransitions D X) := do
  let fuel ← look List.length
  let in_states ← parse_in_states syn (fuel + 1)
  if in_states.length > 1 && in_states.any (·.wildcard) then
    fail (.row ("Wildcards already include all states, so should not be used with " ++
      "input state patterns."))
  else
    let event ← Event.parse syn
    let guard ← GuardExpression.parse_condition
    let sequence ← ActionSequence.parse syn
    let out_state ← OutputState.parse syn
    pure
      { in_states := in_states
        event := event
        guard := guard
        action := sequence.actions.head?
        additional_actions := sequence.actions.tail
        process_events := sequence.process_events
        defer := sequence.defer
        eval_actions := sequence.eval_actions
        out_state := out_state }

end StateTransitions

/-- `syn::parse2` of a row. -/
def parse_row (tokens : TokenStream) : Except RowError (StateTransitions D X) :=
  (StateTransitions.parse syn).whole .leftover tokens

end SmlRs.Macros.Rows
