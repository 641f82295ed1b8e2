/-
Module: SmlRs.Macros.Names
Purpose: The identifiers that the parser makes of the names in a table, and the
  checks that two names are not made into one.
Trusted boundary: the spelling of a row after it is split into tokens
Main exports: state_ident, record_name, validate_name_collisions,
  validate_name_collisions_many, names_apart
-/
import Mathlib
import SmlRs.Lib.Register
import SmlRs.Macros.Table

namespace SmlRs.Macros.Names

open Lib

/-- The characters of a name. -/
abbrev Text := List Char

/-! ### Identifiers -/

/-- A turn of the loop of `state_ident`: a letter or digit behind anything else is
written in upper case. -/
def push_character (locals : Text × Bool) (character : Char) : Text × Bool :=
  let (ident, uppercase) := locals
  if character.isAlphanum then
    if uppercase then (ident ++ [character.toUpper], false)
    else (ident ++ [character], uppercase)
  else (ident, true)

/-- `state_ident`. -/
def state_ident (value : Text) : Text :=
  let (ident, _) := value.foldl push_character ([], true)
  let ident := if ident.isEmpty then ident ++ "State".toList else ident
  if ident.head?.any Char.isDigit then 'S' :: ident else ident

/-! ### Names as they are spelled -/

/-- A state in a row: `"value"_s`, an identifier, `sml::X` or `state<child>`. -/
inductive StateSpelling where
  | literal (value : Text)
  | identifier (name : Text)
  | terminal
  | composite (child : Text)

/-- A source of a row. -/
inductive InputSpelling where
  | wildcard
  | named (state : StateSpelling)

/-- The target of a row: none, `_` or a state. -/
inductive OutputSpelling where
  | implicit
  | underscore
  | named (state : StateSpelling)

/-- The type of an event: a path without a qualified self, or a reference to such a
type. -/
inductive EventType where
  | path (leading : List Text) (last arguments : Text)
  | reference (elem : EventType)

/-- A trigger in a row. Other types of events are errors of the parser, and `sml::`
in front of a trigger leaves no trace. -/
inductive EventSpelling where
  /-- `"value"_e` -/
  | literal (value : Text)
  | identifier (name : Text)
  | event (event_type : EventType)
  | unexpected (event_type : EventType)
  | unexpected_any
  | unexpected_event (event_type : EventType)
  | unexpected_event_any
  | on_entry
  | on_exit
  | completion (name : Text)
  | completion_any
  | exception (name : Text)
  | exception_any

/-- The names in a row. A row may have several sources. -/
structure SpelledRow where
  source : InputSpelling
  others : List InputSpelling := []
  event : EventSpelling
  target : OutputSpelling

/-! ### Names as they are parsed -/

structure InputState where
  ident : Text
  source : Text
  wildcard : Bool := false

structure OutputState where
  ident : Text
  source : Text
  internal_transition : Bool := false

structure Event where
  ident : Text
  source : Text
  kind : EventKind := .normal
  wildcard : Bool := false
  external : Bool := false

/-- `StateTransition`, with the fields that the checks of names read. -/
structure StateTransition where
  in_state : InputState
  event : Event
  out_state : OutputState

namespace StateSpelling

def ident : StateSpelling → Text
  | literal value => state_ident value
  | identifier name => name
  | terminal => "X".toList
  | composite child => state_ident child

def source : StateSpelling → Text
  | literal value => "literal:".toList ++ value
  | identifier name => "identifier:".toList ++ name
  | terminal => "identifier:X".toList
  | composite child => "composite:".toList ++ child

end StateSpelling

def InputSpelling.parse : InputSpelling → InputState
  | .wildcard =>
      { ident := "_".toList, source := "wildcard:_".toList, wildcard := true }
  | .named state => { ident := state.ident, source := state.source }

def OutputSpelling.parse : OutputSpelling → OutputState
  | .implicit =>
      { ident := "_".toList
        source := "internal:_".toList
        internal_transition := true }
  | .underscore =>
      { ident := "_".toList
        source := "identifier:_".toList
        internal_transition := true }
  | .named state => { ident := state.ident, source := state.source }

/-- `type_ident`: a type is named by the last segment of its path. -/
def EventType.type_ident : EventType → Text
  | .path _ last _ => last
  | .reference elem => elem.type_ident

/-- The event and the source that it is first given. -/
def EventSpelling.first : EventSpelling → Event
  | .literal value =>
      { ident := state_ident value, source := "literal:".toList ++ value }
  | .identifier name => { ident := name, source := "identifier:".toList ++ name }
  | .event event_type =>
      { ident := event_type.type_ident
        source := "external:".toList ++ event_type.type_ident
        external := true }
  | .unexpected event_type =>
      { ident := event_type.type_ident
        source := "unexpected:".toList ++ event_type.type_ident
        kind := .unexpected }
  | .unexpected_any =>
      { ident := "__AnyEvent".toList
        source := "identifier:unexpected".toList
        kind := .unexpected
        wildcard := true }
  | .unexpected_event event_type =>
      { ident := event_type.type_ident
        source := "external-unexpected:".toList ++ event_type.type_ident
        kind := .unexpected
        external := true }
  | .unexpected_event_any =>
      { ident := "__AnyEvent".toList
        source := "identifier:unexpected_event".toList
        kind := .unexpected
        wildcard := true }
  | .on_entry =>
      { ident := "on_entry".toList
        source := "lifecycle:on_entry".toList
        kind := .entry }
  | .on_exit =>
      { ident := "on_exit".toList
        source := "lifecycle:on_exit".toList
        kind := .exit }
  | .completion name =>
      { ident := name
        source := "completion:".toList ++ name
        kind := .completion }
  | .completion_any =>
      { ident := "__AnyCompletion".toList
        source := "identifier:completion".toList
        kind := .completion
        wildcard := true }
  | .exception name =>
      { ident := name
        source := "exception:".toList ++ name
        kind := .exception }
  | .exception_any =>
      { ident := "__AnyException".toList
        source := "identifier:exception".toList
        kind := .exception
        wildcard := true }

/-- Any event that is no literal gets its identifier as its source, apart from the
kinds that are not declared. -/
def Event.with_source (event : Event) : Event :=
  if !"literal:".toList.isPrefixOf event.source && !event.wildcard &&
      !(event.kind = .entry || event.kind = .exit || event.kind = .exception) then
    { event with source := "identifier:".toList ++ event.ident }
  else event

def EventSpelling.parse (spelling : EventSpelling) : Event :=
  spelling.first.with_source

def SpelledRow.in_states (row : SpelledRow) : List InputSpelling :=
  row.source :: row.others

def SpelledRow.transition (row : SpelledRow) (in_state : InputSpelling) :
    StateTransition where
  in_state := in_state.parse
  event := row.event.parse
  out_state := row.target.parse

/-- `add_transitions`: a transition for each of the sources. -/
def SpelledRow.transitions (row : SpelledRow) : List StateTransition :=
  row.in_states.map row.transition

def transitions (rows : List SpelledRow) : List StateTransition :=
  rows.flatMap SpelledRow.transitions

/-! ### The checks -/

/-- The kind of name of a collision. -/
inductive NameKind where
  | state
  | event
deriving DecidableEq

def NameKind.text : NameKind → Text
  | .state => "state name".toList
  | .event => "event name".toList

/-- The error of a collision. -/
structure Collision where
  kind : NameKind
  source : Text
  previous : Text
  ident : Text
deriving DecidableEq

/-- `source_display`: what is behind the first colon. -/
def source_display (source : Text) : Text :=
  if ':' ∈ source then (source.dropWhile (· ≠ ':')).tail else source

def Collision.message (collision : Collision) : Text :=
  collision.kind.text ++ " `".toList ++ source_display collision.source ++
    "` collides with `".toList ++ source_display collision.previous ++
    "`: both normalize to `".toList ++ collision.ident ++ "`".toList

/-- The source that was first seen for an identifier. -/
abbrev NameMap := Text → Option Text

/-- `record_name`. -/
def record_name (names : NameMap) (ident source : Text) (kind : NameKind) :
    Except Collision NameMap :=
  match names ident with
  | some previous =>
      if previous ≠ source then
        .error
          { kind := kind, source := source, previous := previous, ident := ident }
      else .ok names
  | none => .ok (Function.update names ident (some source))

/-- The two maps of `validate_machine_names`. -/
structure SeenNames where
  states : NameMap := fun _ => none
  events : NameMap := fun _ => none

/-- Only events of the normal kind declare a name. -/
def Event.declares (event : Event) : Bool :=
  !event.wildcard && event.kind = .normal

/-- A turn of the loop of `validate_machine_names`. -/
def SeenNames.record_row (names : SeenNames) (transition : StateTransition) :
    Except Collision SeenNames := do
  let names ←
    if !transition.in_state.wildcard then do
      let states ← record_name names.states transition.in_state.ident
        transition.in_state.source .state
      pure { names with states := states }
    else pure names
  let names ←
    if !transition.out_state.internal_transition then do
      let states ← record_name names.states transition.out_state.ident
        transition.out_state.source .state
      pure { names with states := states }
    else pure names
  if transition.event.declares then do
    let events ← record_name names.events transition.event.ident
      transition.event.source .event
    pure { names with events := events }
  else pure names

def validate_machine_names (machine : List StateTransition) :
    Except Collision Unit := do
  let _ ← machine.foldlM SeenNames.record_row {}
  pure ()

def validate_name_collisions (machine : List StateTransition) :
    Except Collision Unit :=
  validate_machine_names machine

/-- A turn of the inner loop of `validate_name_collisions_many`. -/
def record_event (events : NameMap) (transition : StateTransition) :
    Except Collision NameMap :=
  if transition.event.declares then
    record_name events transition.event.ident transition.event.source .event
  else pure events

def validate_name_collisions_many (machines : List (List StateTransition)) :
    Except Collision Unit := do
  let _ ← machines.foldlM (fun events machine => do
    validate_machine_names machine
    machine.foldlM record_event events) (fun _ => none)
  pure ()

/-- `ParsedStateMachine::new` first gives an internal row its source as its target,
unless the row is from `_`. -/
def StateTransition.derive_out_state (transition : StateTransition) :
    StateTransition :=
  if transition.out_state.internal_transition && !transition.in_state.wildcard then
    { transition with
      out_state :=
        { ident := transition.in_state.ident
          source := transition.in_state.source
          internal_transition := false } }
  else transition

/-- The check as `ParsedStateMachine::new` makes it. -/
def validate_flat (machine : List StateTransition) : Except Collision Unit :=
  validate_name_collisions (machine.map StateTransition.derive_out_state)

/-! ### Identifiers are well formed -/

section Ident

variable {locals : Text × Bool} {value : Text}

/-- What the loop of `state_ident` keeps: letters and digits, of which the first is
in upper case, and it waits for the first one as long as there is none. -/
structure Capital (locals : Text × Bool) : Prop where
  alphanumeric : ∀ character ∈ locals.1, character.isAlphanum
  waits : locals.1 = [] → locals.2 = true
  starts : ∀ character ∈ locals.1.head?, character.isUpper ∨ character.isDigit

theorem isUpper_toUpper {character : Char} (lower : character.isLower) :
    character.toUpper.isUpper := by
  have range : 97 ≤ character.toNat ∧ character.toNat ≤ 122 := by
    simpa [Char.isLower, UInt32.le_iff_toNat_le] using lower
  have value : character.toUpper.val = character.val + ('A'.val - 'a'.val) := by
    unfold Char.toUpper
    rw [dif_pos (by simpa [Char.isLower] using lower)]
  have number : character.toUpper.toNat =
      (character.toNat + 4294967264) % 4294967296 := by
    rw [← Char.toNat_val, value, UInt32.toNat_add]
    rfl
  simp [Char.isUpper, UInt32.le_iff_toNat_le]
  omega

theorem toUpper_eq {character : Char} (other : ¬character.isLower) :
    character.toUpper = character := by
  unfold Char.toUpper
  rw [dif_neg (by simpa [Char.isLower] using other)]

theorem toUpper_starts {character : Char} (kept : character.isAlphanum) :
    character.toUpper.isUpper ∨ character.toUpper.isDigit := by
  by_cases lower : character.isLower
  · left
    exact isUpper_toUpper lower
  · rw [toUpper_eq lower]
    simpa [Char.isAlphanum, Char.isAlpha, lower] using kept

theorem isAlphanum_of_starts {character : Char}
    (starts : character.isUpper ∨ character.isDigit) : character.isAlphanum := by
  rcases starts with upper | digit
  · simp [Char.isAlphanum, Char.isAlpha, upper]
  · simp [Char.isAlphanum, digit]

theorem Capital.push (capital : Capital locals) (character : Char) :
    Capital (push_character locals character) := by
  obtain ⟨ident, uppercase⟩ := locals
  obtain ⟨alphanumeric, waits, starts⟩ := capital
  unfold push_character
  dsimp only at alphanumeric waits starts ⊢
  by_cases kept : character.isAlphanum
  · rw [if_pos kept]
    by_cases first : uppercase = true
    · rw [if_pos first]
      constructor
      · intro other among
        rcases List.mem_append.mp among with among | among
        · exact alphanumeric other among
        · rw [List.mem_singleton.mp among]
          exact isAlphanum_of_starts (toUpper_starts kept)
      · intro empty
        exact absurd empty (List.concat_ne_nil _ _)
      · intro other head
        cases ident with
        | nil =>
          cases head
          exact toUpper_starts kept
        | cons => exact starts other head
    · rw [if_neg first]
      constructor
      · intro other among
        rcases List.mem_append.mp among with among | among
        · exact alphanumeric other among
        · rw [List.mem_singleton.mp among]
          exact kept
      · intro empty
        exact absurd empty (List.concat_ne_nil _ _)
      · intro other head
        cases ident with
        | nil => exact absurd (waits rfl) first
        | cons => exact starts other head
  · rw [if_neg kept]
    exact ⟨alphanumeric, fun _ => rfl, starts⟩

theorem Capital.foldl (capital : Capital locals) :
    Capital (value.foldl push_character locals) := by
  induction value generalizing locals with
  | nil => exact capital
  | cons character rest ih => exact ih (capital.push character)

/-- `Ident::new` is given an identifier: a letter in upper case with letters and
digits behind it. -/
theorem state_ident_valid (value : Text) :
    ∃ first rest, state_ident value = first :: rest ∧ first.isUpper ∧
      ∀ character ∈ rest, character.isAlphanum := by
  have start : Capital ([], true) := ⟨nofun, fun _ => rfl, nofun⟩
  obtain ⟨alphanumeric, _, starts⟩ : Capital (value.foldl push_character ([], true)) :=
    start.foldl
  unfold state_ident
  generalize value.foldl push_character ([], true) = locals at alphanumeric starts
  obtain ⟨ident, uppercase⟩ := locals
  cases ident with
  | nil => exact ⟨'S', "tate".toList, rfl, rfl, List.all_eq_true.mp rfl⟩
  | cons first rest =>
    have behind : ∀ character ∈ rest, character.isAlphanum :=
      fun character among => alphanumeric character (List.mem_cons_of_mem _ among)
    by_cases digit : first.isDigit
    · exact ⟨'S', first :: rest, by simp [digit], rfl, alphanumeric⟩
    · refine ⟨first, rest, by simp [digit], ?_, behind⟩
      rcases starts first rfl with upper | digit'
      · exact upper
      · exact absurd digit' digit

end Ident

/-! ### What a name is declared as -/

/-- A name as it is declared: the text of a literal, an identifier, or the child of a
composite state. -/
inductive DeclaredName where
  | literal (value : Text)
  | identifier (name : Text)
  | composite (child : Text)
deriving DecidableEq

def DeclaredName.source : DeclaredName → Text
  | literal value => "literal:".toList ++ value
  | identifier name => "identifier:".toList ++ name
  | composite child => "composite:".toList ++ child

def DeclaredName.text : DeclaredName → Text
  | literal text => text
  | identifier text => text
  | composite text => text

/-- `sml::X` is the identifier `X`. -/
def StateSpelling.name : StateSpelling → DeclaredName
  | .literal value => .literal value
  | .identifier name => .identifier name
  | .terminal => .identifier "X".toList
  | .composite child => .composite child

/-- A type declares the last identifier of its path. -/
def EventSpelling.name : EventSpelling → DeclaredName
  | .literal value => .literal value
  | spelling => .identifier spelling.parse.ident

theorem DeclaredName.source_injective : Function.Injective DeclaredName.source := by
  intro first second same
  have tags : first.source.head? = second.source.head? := congrArg List.head? same
  cases first <;> cases second
  case literal.literal | identifier.identifier | composite.composite =>
    exact congrArg _ (List.append_cancel_left same)
  all_goals exact absurd (Option.some.inj tags) (by decide)

/-- An error displays a name as it is spelled, also where there are colons in it. -/
theorem DeclaredName.source_display_eq (name : DeclaredName) :
    source_display name.source = name.text := by
  unfold source_display
  cases name with
  | literal | identifier | composite =>
    exact if_pos (List.mem_append_left _ (by decide))

theorem StateSpelling.source_eq (state : StateSpelling) :
    state.source = state.name.source := by
  cases state <;> rfl

/-- An event of the normal kind has its name as its source. -/
theorem EventSpelling.source_eq {spelling : EventSpelling}
    (declares : spelling.parse.declares) :
    spelling.parse.source = spelling.name.source := by
  cases spelling with
  | literal | identifier | event => rfl
  | unexpected | unexpected_any | unexpected_event | unexpected_event_any | on_entry
  | on_exit | completion | completion_any | exception | exception_any =>
    cases declares

/-! ### The checks as one register -/

/-- A name that a row records. -/
structure Declaration where
  kind : NameKind
  ident : Text
  source : Text

/-- The two maps hold one name for each kind and identifier. -/
def Declaration.key (declaration : Declaration) : NameKind × Text :=
  (declaration.kind, declaration.ident)

def SeenNames.kept (names : SeenNames) : NameKind × Text → Option Text
  | (.state, ident) => names.states ident
  | (.event, ident) => names.events ident

def SeenNames.record (names : SeenNames) (declaration : Declaration) :
    Except Collision SeenNames :=
  match declaration.kind with
  | .state => do
      let states ← record_name names.states declaration.ident declaration.source
        .state
      pure { names with states := states }
  | .event => do
      let events ← record_name names.events declaration.ident declaration.source
        .event
      pure { names with events := events }

namespace StateTransition

variable (transition : StateTransition)

def input_names : List Declaration :=
  if transition.in_state.wildcard then []
  else [⟨.state, transition.in_state.ident, transition.in_state.source⟩]

def output_names : List Declaration :=
  if transition.out_state.internal_transition then []
  else [⟨.state, transition.out_state.ident, transition.out_state.source⟩]

def state_names : List Declaration :=
  transition.input_names ++ transition.output_names

def event_names : List Declaration :=
  if transition.event.declares then
    [⟨.event, transition.event.ident, transition.event.source⟩]
  else []

def declarations : List Declaration :=
  transition.state_names ++ transition.event_names

end StateTransition

section Record

variable {names : SeenNames} {map : NameMap} {transition : StateTransition}
  {machine : List StateTransition}

theorem record_row_eq :
    names.record_row transition =
      transition.declarations.foldlM SeenNames.record names := by
  unfold StateTransition.declarations StateTransition.state_names
  rw [List.foldlM_append, List.foldlM_append, bind_assoc]
  unfold SeenNames.record_row StateTransition.input_names
    StateTransition.output_names StateTransition.event_names
  cases transition.in_state.wildcard <;>
    cases transition.out_state.internal_transition <;>
      cases transition.event.declares <;>
        simp [SeenNames.record]

theorem record_event_eq :
    record_event map transition =
      transition.event_names.foldlM (fun map declaration =>
        record_name map declaration.ident declaration.source .event) map := by
  unfold record_event StateTransition.event_names
  cases transition.event.declares <;> simp

theorem record_name_fresh {ident source : Text} {kind : NameKind}
    (new : map ident = none) :
    record_name map ident source kind =
      .ok (Function.update map ident (some source)) := by
  unfold record_name
  rw [new]

theorem record_name_again {ident source : Text} {kind : NameKind}
    (seen : map ident = some source) :
    record_name map ident source kind = .ok map := by
  unfold record_name
  rw [seen]
  exact if_neg (not_not_intro rfl)

/-- The error names both sources and the identifier. -/
theorem record_name_other {ident source previous : Text} {kind : NameKind}
    (seen : map ident = some previous) (differs : previous ≠ source) :
    record_name map ident source kind = .error ⟨kind, source, previous, ident⟩ := by
  unfold record_name
  rw [seen]
  exact if_pos differs

theorem record_event_registers :
    Registers Declaration.ident Declaration.source id
      (fun map declaration =>
        record_name map declaration.ident declaration.source .event) where
  fresh := by
    intro map declaration new
    exact ⟨_, record_name_fresh new, rfl⟩
  again := by
    intro map declaration seen
    exact record_name_again seen
  other := by
    intro map declaration previous seen differs
    exact ⟨_, record_name_other seen differs⟩

theorem kept_states {ident : Text} {source : Option Text} :
    SeenNames.kept { names with
        states := Function.update names.states ident source } =
      Function.update names.kept (.state, ident) source := by
  funext ⟨kind, other⟩
  cases kind with
  | state =>
    by_cases same : other = ident
    · simp [SeenNames.kept, same]
    · simp [SeenNames.kept, same]
  | event => simp [SeenNames.kept]

theorem kept_events {ident : Text} {source : Option Text} :
    SeenNames.kept { names with
        events := Function.update names.events ident source } =
      Function.update names.kept (.event, ident) source := by
  funext ⟨kind, other⟩
  cases kind with
  | state => simp [SeenNames.kept]
  | event =>
    by_cases same : other = ident
    · simp [SeenNames.kept, same]
    · simp [SeenNames.kept, same]

theorem record_registers :
    Registers Declaration.key Declaration.source SeenNames.kept
      SeenNames.record where
  fresh := by
    intro names ⟨kind, ident, source⟩ new
    cases kind with
    | state => exact ⟨_, congrArg (· >>= _) (record_name_fresh new), kept_states⟩
    | event => exact ⟨_, congrArg (· >>= _) (record_name_fresh new), kept_events⟩
  again := by
    intro names ⟨kind, ident, source⟩ seen
    cases kind with
    | state => exact congrArg (· >>= _) (record_name_again seen)
    | event => exact congrArg (· >>= _) (record_name_again seen)
  other := by
    intro names ⟨kind, ident, source⟩ previous seen differs
    cases kind with
    | state => exact ⟨_, congrArg (· >>= _) (record_name_other seen differs)⟩
    | event => exact ⟨_, congrArg (· >>= _) (record_name_other seen differs)⟩

theorem validate_machine_names_iff :
    validate_machine_names machine = .ok () ↔
      Alike Declaration.key Declaration.source
        (machine.flatMap StateTransition.declarations) := by
  have turns : machine.foldlM SeenNames.record_row {} =
      (machine.flatMap StateTransition.declarations).foldlM SeenNames.record {} := by
    rw [foldlM_flatMap]
    congr
    funext names transition
    exact record_row_eq
  rw [← passes_unit]
  unfold validate_machine_names
  rw [passes_drop, turns, record_registers.passes_iff]
  have empty : SeenNames.kept {} = fun _ => none := by
    funext ⟨kind, _⟩
    cases kind <;> rfl
  rw [empty]
  exact and_iff_right fits_empty

/-- The loop over the tables checks each of them, and it registers the events of
all. -/
theorem many_passes {machines : List (List StateTransition)} :
    Passes (machines.foldlM (fun events machine => do
        validate_machine_names machine
        machine.foldlM record_event events) map) ↔
      (∀ machine ∈ machines, validate_machine_names machine = .ok ()) ∧
        Passes ((machines.flatten.flatMap StateTransition.event_names).foldlM
          (fun map declaration =>
            record_name map declaration.ident declaration.source .event) map) := by
  induction machines generalizing map with
  | nil => simp
  | cons machine rest ih =>
    have turns : machine.foldlM record_event map =
        (machine.flatMap StateTransition.event_names).foldlM
          (fun map declaration =>
            record_name map declaration.ident declaration.source .event) map := by
      rw [foldlM_flatMap]
      congr
      funext names transition
      exact record_event_eq
    rw [List.foldlM_cons, List.flatten_cons, List.flatMap_append,
      List.foldlM_append,
      List.forall_mem_cons, bind_assoc, passes_seq, passes_unit, turns, passes_bind,
      passes_bind, and_assoc]
    apply and_congr_right
    intro _
    constructor
    · intro ⟨names, returns, passes⟩
      obtain ⟨others, passes⟩ := ih.mp passes
      exact ⟨others, names, returns, passes⟩
    · intro ⟨others, names, returns, passes⟩
      exact ⟨names, returns, ih.mpr ⟨others, passes⟩⟩

theorem validate_name_collisions_many_iff {machines : List (List StateTransition)} :
    validate_name_collisions_many machines = .ok () ↔
      (∀ machine ∈ machines, validate_machine_names machine = .ok ()) ∧
        Alike Declaration.ident Declaration.source
          (machines.flatten.flatMap StateTransition.event_names) := by
  rw [← passes_unit]
  unfold validate_name_collisions_many
  rw [passes_drop, many_passes, record_event_registers.passes_iff]
  apply and_congr_right
  intro _
  exact and_iff_right fits_empty

end Record

/-! ### The names of a table -/

def InputSpelling.states : InputSpelling → List StateSpelling
  | .wildcard => []
  | .named state => [state]

def OutputSpelling.states : OutputSpelling → List StateSpelling
  | .implicit | .underscore => []
  | .named state => [state]

def SpelledRow.states (row : SpelledRow) : List StateSpelling :=
  row.in_states.flatMap InputSpelling.states ++ row.target.states

/-- The states that a table spells. -/
def state_spellings (rows : List SpelledRow) : List StateSpelling :=
  rows.flatMap SpelledRow.states

def SpelledRow.events (row : SpelledRow) : List EventSpelling :=
  if row.event.parse.declares then [row.event] else []

/-- The events of the normal kind that a table spells. -/
def normal_events (rows : List SpelledRow) : List EventSpelling :=
  rows.flatMap SpelledRow.events

/-- States that are declared as different names have different identifiers. -/
def StatesApart (rows : List SpelledRow) : Prop :=
  ∀ first ∈ state_spellings rows, ∀ second ∈ state_spellings rows,
    first.name ≠ second.name → first.ident ≠ second.ident

/-- So have events of the normal kind. -/
def EventsApart (rows : List SpelledRow) : Prop :=
  ∀ first ∈ normal_events rows, ∀ second ∈ normal_events rows,
    first.name ≠ second.name → first.parse.ident ≠ second.parse.ident

def StateSpelling.declaration (state : StateSpelling) : Declaration :=
  ⟨.state, state.ident, state.source⟩

def EventSpelling.declaration (spelling : EventSpelling) : Declaration :=
  ⟨.event, spelling.parse.ident, spelling.parse.source⟩

section Apart

variable {rows : List SpelledRow} {declaration : Declaration}
  {declarations : List Declaration} {machine : List StateTransition}

theorem input_names_eq {row : SpelledRow} (in_state : InputSpelling) :
    (row.transition in_state).input_names =
      in_state.states.map StateSpelling.declaration := by
  cases in_state <;> rfl

theorem output_names_eq {row : SpelledRow} (in_state : InputSpelling) :
    (row.transition in_state).output_names =
      row.target.states.map StateSpelling.declaration := by
  unfold SpelledRow.transition StateTransition.output_names
  cases row.target <;> rfl

theorem event_names_eq {row : SpelledRow} (in_state : InputSpelling) :
    (row.transition in_state).event_names =
      row.events.map EventSpelling.declaration := by
  unfold SpelledRow.transition StateTransition.event_names SpelledRow.events
  by_cases declares : row.event.parse.declares
  · rw [if_pos declares, if_pos declares]
    rfl
  · rw [if_neg declares, if_neg declares]
    rfl

theorem mem_transitions {transition : StateTransition} :
    transition ∈ transitions rows ↔
      ∃ row ∈ rows, ∃ in_state ∈ row.in_states,
        row.transition in_state = transition := by
  unfold transitions SpelledRow.transitions
  simp only [List.mem_flatMap, List.mem_map]

theorem mem_event_names :
    declaration ∈ (transitions rows).flatMap StateTransition.event_names ↔
      ∃ spelling ∈ normal_events rows, declaration = spelling.declaration := by
  unfold normal_events
  simp only [List.mem_flatMap, mem_transitions]
  constructor
  · intro ⟨_, ⟨row, mem_row, in_state, _, rfl⟩, recorded⟩
    rw [event_names_eq] at recorded
    obtain ⟨spelling, spelled, rfl⟩ := List.mem_map.mp recorded
    exact ⟨spelling, ⟨row, mem_row, spelled⟩, rfl⟩
  · intro ⟨spelling, ⟨row, mem_row, spelled⟩, recorded⟩
    cases recorded
    refine ⟨_, ⟨row, mem_row, row.source, List.mem_cons_self, rfl⟩, ?_⟩
    rw [event_names_eq]
    exact List.mem_map_of_mem spelled

theorem declares_of_mem {spelling : EventSpelling}
    (among : spelling ∈ normal_events rows) : spelling.parse.declares := by
  obtain ⟨row, _, spelled⟩ := List.mem_flatMap.mp among
  unfold SpelledRow.events at spelled
  by_cases declares : row.event.parse.declares
  · rw [if_pos declares] at spelled
    cases List.mem_singleton.mp spelled
    exact declares
  · rw [if_neg declares] at spelled
    cases spelled

theorem mem_state_names :
    declaration ∈ (transitions rows).flatMap StateTransition.state_names ↔
      ∃ state ∈ state_spellings rows, declaration = state.declaration := by
  unfold state_spellings SpelledRow.states StateTransition.state_names
  simp only [List.mem_flatMap, mem_transitions, List.mem_append]
  constructor
  · intro ⟨_, ⟨row, mem_row, in_state, among, rfl⟩, recorded⟩
    rw [input_names_eq, output_names_eq] at recorded
    rcases recorded with recorded | recorded
    · obtain ⟨state, spelled, rfl⟩ := List.mem_map.mp recorded
      exact ⟨state, ⟨row, mem_row, .inl ⟨in_state, among, spelled⟩⟩, rfl⟩
    · obtain ⟨state, spelled, rfl⟩ := List.mem_map.mp recorded
      exact ⟨state, ⟨row, mem_row, .inr spelled⟩, rfl⟩
  · intro ⟨state, ⟨row, mem_row, spelled⟩, recorded⟩
    cases recorded
    rcases spelled with ⟨in_state, among, spelled⟩ | spelled
    · refine ⟨_, ⟨row, mem_row, in_state, among, rfl⟩, .inl ?_⟩
      rw [input_names_eq]
      exact List.mem_map_of_mem spelled
    · refine ⟨_, ⟨row, mem_row, row.source, List.mem_cons_self, rfl⟩, .inr ?_⟩
      rw [output_names_eq]
      exact List.mem_map_of_mem spelled

theorem mem_declarations :
    declaration ∈ (transitions rows).flatMap StateTransition.declarations ↔
      (∃ state ∈ state_spellings rows, declaration = state.declaration) ∨
        ∃ spelling ∈ normal_events rows, declaration = spelling.declaration := by
  rw [← mem_state_names, ← mem_event_names]
  unfold StateTransition.declarations
  simp only [List.mem_flatMap, List.mem_append, and_or_left, exists_or]

/-- An internal row that gets its source as its target records no other name. -/
theorem mem_derived_declarations :
    declaration ∈ (machine.map StateTransition.derive_out_state).flatMap
        StateTransition.declarations ↔
      declaration ∈ machine.flatMap StateTransition.declarations := by
  simp only [List.mem_flatMap, List.mem_map, exists_exists_and_eq_and]
  apply exists_congr
  intro transition
  apply and_congr_right
  intro _
  unfold StateTransition.derive_out_state StateTransition.declarations
    StateTransition.state_names StateTransition.output_names StateTransition.input_names
    StateTransition.event_names
  cases internal : transition.out_state.internal_transition <;>
    cases wildcard : transition.in_state.wildcard <;>
      simp [internal, wildcard]

theorem states_apart_iff :
    Alike StateSpelling.ident StateSpelling.source (state_spellings rows) ↔
      StatesApart rows := by
  apply Lib.alike_iff_apart DeclaredName.source_injective
  intro state _
  exact state.source_eq

theorem events_apart_iff :
    Alike (fun spelling : EventSpelling => spelling.parse.ident)
        (fun spelling => spelling.parse.source) (normal_events rows) ↔
      EventsApart rows := by
  apply Lib.alike_iff_apart DeclaredName.source_injective
  intro spelling among
  exact EventSpelling.source_eq (declares_of_mem among)

/-- Whatever records the names of a table finds one source for each identifier
exactly when the names are apart. -/
theorem declarations_apart_iff
    (recorded : ∀ declaration, declaration ∈ declarations ↔
      declaration ∈ (transitions rows).flatMap StateTransition.declarations) :
    Alike Declaration.key Declaration.source declarations ↔
      StatesApart rows ∧ EventsApart rows := by
  rw [← states_apart_iff, ← events_apart_iff]
  constructor
  · intro alike
    constructor
    · intro first among second also same
      apply alike first.declaration _ second.declaration _
        (congrArg (Prod.mk _) same)
      · exact (recorded _).mpr (mem_declarations.mpr (.inl ⟨first, among, rfl⟩))
      · exact (recorded _).mpr (mem_declarations.mpr (.inl ⟨second, also, rfl⟩))
    · intro first among second also same
      apply alike first.declaration _ second.declaration _
        (congrArg (Prod.mk _) same)
      · exact (recorded _).mpr (mem_declarations.mpr (.inr ⟨first, among, rfl⟩))
      · exact (recorded _).mpr (mem_declarations.mpr (.inr ⟨second, also, rfl⟩))
  · intro ⟨states, events⟩ first among second also same
    -- A state and an event have different keys.
    rcases mem_declarations.mp ((recorded _).mp among) with
      ⟨state, spelled, rfl⟩ | ⟨spelling, spelled, rfl⟩ <;>
    rcases mem_declarations.mp ((recorded _).mp also) with
      ⟨other, spelled', rfl⟩ | ⟨other, spelled', rfl⟩
    · exact states state spelled other spelled' (congrArg Prod.snd same)
    · cases congrArg Prod.fst same
    · cases congrArg Prod.fst same
    · exact events spelling spelled other spelled' (congrArg Prod.snd same)

theorem EventsApart.of_mem {tables : List (List SpelledRow)}
    (apart : EventsApart tables.flatten) (among : rows ∈ tables) :
    EventsApart rows := by
  have within : normal_events rows ⊆ normal_events tables.flatten := by
    intro spelling spelled
    obtain ⟨row, mem_row, spelled⟩ := List.mem_flatMap.mp spelled
    exact List.mem_flatMap.mpr
      ⟨row, List.mem_flatten.mpr ⟨rows, among, mem_row⟩, spelled⟩
  intro first spelled second spelled'
  exact apart first (within spelled) second (within spelled')

theorem flatten_events_apart_iff {tables : List (List SpelledRow)} :
    Alike Declaration.ident Declaration.source
        ((tables.map transitions).flatten.flatMap StateTransition.event_names) ↔
      EventsApart tables.flatten := by
  have all : (tables.map transitions).flatten = transitions tables.flatten := by
    have one : transitions = List.flatten ∘ List.map SpelledRow.transitions := rfl
    rw [one, Function.comp_apply, List.map_flatten, List.flatten_flatten, List.map_map]
  rw [← events_apart_iff, all]
  constructor
  · intro alike first among second also same
    apply alike first.declaration _ second.declaration _ same
    · exact mem_event_names.mpr ⟨first, among, rfl⟩
    · exact mem_event_names.mpr ⟨second, also, rfl⟩
  · intro alike first among second also same
    obtain ⟨spelling, spelled, rfl⟩ := mem_event_names.mp among
    obtain ⟨other, spelled', rfl⟩ := mem_event_names.mp also
    exact alike spelling spelled other spelled' same

end Apart

/-- The name checks accept exactly the tables whose states, and whose events of the
normal kind, have different identifiers where they are declared as different names;
of several tables the events of all. -/
theorem names_apart (tables : List (List SpelledRow)) :
    (∀ rows ∈ tables,
      (validate_flat (transitions rows) = .ok () ↔
        StatesApart rows ∧ EventsApart rows) ∧
      (validate_name_collisions (transitions rows) = .ok () ↔
        StatesApart rows ∧ EventsApart rows)) ∧
      (validate_name_collisions_many (tables.map transitions) = .ok () ↔
        (∀ rows ∈ tables, StatesApart rows) ∧ EventsApart tables.flatten) := by
  constructor
  · intro rows _
    constructor
    · exact validate_machine_names_iff.trans
        (declarations_apart_iff fun _ => mem_derived_declarations)
    · exact validate_machine_names_iff.trans (declarations_apart_iff fun _ => Iff.rfl)
  · rw [validate_name_collisions_many_iff, flatten_events_apart_iff]
    apply and_congr_left
    intro apart
    constructor
    · intro accepts rows among
      have accepted := accepts _ (List.mem_map_of_mem among)
      rw [validate_machine_names_iff,
        declarations_apart_iff fun _ => Iff.rfl] at accepted
      exact accepted.1
    · intro states machine among
      obtain ⟨rows, mem_rows, rfl⟩ := List.mem_map.mp among
      rw [validate_machine_names_iff, declarations_apart_iff fun _ => Iff.rfl]
      exact ⟨states rows mem_rows, apart.of_mem mem_rows⟩

/-- Two types of one last identifier in a row each: `a::Foo` and `b::Foo`. -/
def two_paths : List SpelledRow :=
  [{ source := .named (.literal "idle".toList)
     event := .event (.path ["a".toList] "Foo".toList [])
     target := .named (.literal "busy".toList) },
   { source := .named (.literal "busy".toList)
     event := .event (.path ["b".toList] "Foo".toList [])
     target := .named (.literal "idle".toList) }]

/-- Events are told apart by the last identifier of their types: two types that differ
in their paths are accepted as one event. -/
theorem paths_are_one_event :
    validate_flat (transitions two_paths) = .ok () ∧
      validate_name_collisions_many [transitions two_paths] = .ok () ∧
      normal_events two_paths =
        [.event (.path ["a".toList] "Foo".toList []),
          .event (.path ["b".toList] "Foo".toList [])] ∧
      EventSpelling.event (.path ["a".toList] "Foo".toList []) ≠
        .event (.path ["b".toList] "Foo".toList []) ∧
      ∀ spelling ∈ normal_events two_paths, spelling.parse.ident = "Foo".toList :=
  ⟨rfl, rfl, rfl, by simp, by decide⟩

end SmlRs.Macros.Names
