/-
Module: SmlRs.Macros.RowStates
Purpose: The sources and the targets of rows are read exactly where they are spelled.
Trusted boundary: none
Main exports: Apart, Ended, name_of_takes, name_takes, input_of_takes, input_takes,
  output_of_takes, output_takes
-/
import SmlRs.Macros.RowGrammar

namespace SmlRs.Macros.Rows

open Lib Names Parse

variable {D X : Type} (syn : Syn D X)

/-! ### States are read -/

section Names

variable {input rest : TokenStream} {named last : NamedState} {spelling : StateSpelling}

/-- The locals of the parsers of states for a state that is spelled. -/
def named_state (spelling : StateSpelling) : NamedState where
  ident := spelling.ident
  source := spelling.source
  composite := child spelling

/-- What stands behind a name does not go on with it. -/
structure Apart (rest : TokenStream) : Prop where
  angle : punct_front '<' rest = none
  path : pair_front ':' rest = none

/-- What stands behind a state or a trigger does not go on with it. -/
structure Ended (rest : TokenStream) : Prop extends Apart rest where
  group : group_front .parenthesis rest = none

theorem ended_nil : Ended [] where
  angle := rfl
  path := rfl
  group := rfl

theorem ended_punct {char : Char} {joint : Bool} (angle : char ≠ '<')
    (path : char ≠ ':') : Ended (.punct char joint :: rest) where
  angle := if_neg angle
  path := pair_front_other path
  group := rfl

theorem apart_group {delimiter : Delimiter} {content : TokenStream} :
    Apart (.group delimiter content :: rest) where
  angle := rfl
  path := rfl

theorem ended_bracket {content : TokenStream} :
    Ended (.group .bracket content :: rest) where
  toApart := apart_group
  group := rfl

/-- An identifier that is made of a text is none of the words of the parsers. -/
theorem state_ident_ne {value word : Text}
    (lower : word.head?.any Char.isLower = true) : state_ident value ≠ word := by
  intro same
  obtain ⟨first, rest, spelled, upper, _⟩ := state_ident_valid value
  rw [spelled] at same
  subst same
  simp only [List.head?_cons, Option.any_some, Char.isLower, Char.isUpper,
    Bool.and_eq_true, decide_eq_true_eq] at lower upper
  exact absurd (UInt32.le_trans lower.1 upper.2) (by decide)

theorem parse_name_takes (takes : parse_name.Takes input named rest) :
    (∃ value suffix, input = .string value suffix :: rest ∧
        named = named_state (.literal value)) ∨
      ∃ name, input = .ident name :: rest ∧ is_keyword name = false ∧
        named = named_state (.identifier name) := by
  unfold parse_name at takes
  rw [takes_peek_bind, takes_ite] at takes
  rcases takes with ⟨_, takes⟩ | ⟨_, takes⟩
  · obtain ⟨⟨value, suffix⟩, mid, found, takes⟩ := takes_bind.mp takes
    obtain ⟨rfl, rfl⟩ := takes_pure.mp takes
    exact .inl ⟨value, suffix, string_front_eq.mp (takes_expect.mp found), rfl⟩
  · obtain ⟨name, mid, found, takes⟩ := takes_bind.mp takes
    obtain ⟨rfl, rfl⟩ := takes_pure.mp takes
    obtain ⟨same, own⟩ := ident_front_eq.mp (takes_expect.mp found)
    exact .inr ⟨name, same, own, rfl⟩

theorem angled_takes {α : Type} {parse : Parser α} {value : α} :
    (angled parse).Takes input value rest ↔
      ∃ opens closes inner, input = .punct '<' opens :: inner ∧
        parse.Takes inner value (.punct '>' closes :: rest) := by
  unfold angled
  constructor
  · intro takes
    obtain ⟨_, inner, opened, takes⟩ := takes_bind.mp takes
    obtain ⟨own, mid, read, takes⟩ := takes_bind.mp takes
    obtain ⟨_, behind, closed, takes⟩ := takes_bind.mp takes
    obtain ⟨rfl, rfl⟩ := takes_pure.mp takes
    obtain ⟨opens, rfl⟩ := punct_front_eq.mp (takes_expect.mp opened)
    obtain ⟨closes, rfl⟩ := punct_front_eq.mp (takes_expect.mp closed)
    exact ⟨opens, closes, inner, rfl, read⟩
  · intro formed
    obtain ⟨opens, closes, inner, rfl, read⟩ := formed
    exact takes_bind.mpr ⟨(), _, takes_expect.mpr punct_front_cons,
      takes_bind.mpr ⟨_, _, read,
        takes_bind.mpr ⟨(), _, takes_expect.mpr punct_front_cons,
          takes_pure.mpr ⟨rfl, rfl⟩⟩⟩⟩

theorem parse_composite_takes :
    (parse_composite named).Takes input last rest ↔
      (named.ident = "state".toList ∧
        ∃ child opens closes, is_keyword child = false ∧
          input = .punct '<' opens :: .ident child :: .punct '>' closes :: rest ∧
          last = named_state (.composite child)) ∨
      (¬ (named.ident = "state".toList ∧ (punct_front '<' input).isSome) ∧
        last = named ∧ rest = input) := by
  unfold parse_composite
  rw [takes_peek_bind, takes_ite]
  simp only [Bool.and_eq_true, decide_eq_true_eq]
  constructor
  · intro takes
    rcases takes with ⟨own, takes⟩ | ⟨other, takes⟩
    · left
      obtain ⟨child, mid, read, takes⟩ := takes_bind.mp takes
      obtain ⟨rfl, rfl⟩ := takes_pure.mp takes
      obtain ⟨opens, closes, inner, rfl, found⟩ := angled_takes.mp read
      obtain ⟨rfl, free⟩ := ident_front_eq.mp (takes_expect.mp found)
      exact ⟨own.1, child, opens, closes, free, rfl, rfl⟩
    · exact .inr ⟨other, takes_pure.mp takes⟩
  · intro formed
    rcases formed with ⟨own, child, opens, closes, free, rfl, rfl⟩ | ⟨other, same⟩
    · left
      refine ⟨⟨own, isSome_of_front punct_front_cons⟩, ?_⟩
      exact takes_bind.mpr ⟨child, rest,
        angled_takes.mpr
          ⟨opens, closes, _, rfl, takes_expect.mpr (ident_front_cons free)⟩,
        takes_pure.mpr ⟨rfl, rfl⟩⟩
    · exact .inr ⟨other, takes_pure.mpr same⟩

theorem parse_terminal_takes :
    (parse_terminal named).Takes input last rest ↔
      (named.ident = "sml".toList ∧
        ∃ joint,
          input = .punct ':' true :: .punct ':' joint :: .ident ['X'] :: rest ∧
          last = { named with ident := ['X'], source := "identifier:X".toList }) ∨
      (¬ (named.ident = "sml".toList ∧ (pair_front ':' input).isSome) ∧
        last = named ∧ rest = input) := by
  unfold parse_terminal
  rw [takes_peek_bind, takes_ite]
  simp only [Bool.and_eq_true, decide_eq_true_eq]
  constructor
  · intro takes
    rcases takes with ⟨own, takes⟩ | ⟨other, takes⟩
    · left
      obtain ⟨_, mid, colons, further⟩ := takes_bind.mp takes
      obtain ⟨joint, same⟩ := pair_front_eq.mp (takes_expect.mp colons)
      obtain ⟨ident, behind, found, named⟩ := takes_bind.mp further
      obtain ⟨same', _⟩ := ident_front_eq.mp (takes_expect.mp found)
      rcases takes_ite.mp named with ⟨_, failed⟩ | ⟨terminal, ends⟩
      · exact absurd failed takes_fail
      · obtain rfl := Decidable.not_not.mp terminal
        obtain ⟨rfl, rfl⟩ := takes_pure.mp ends
        exact ⟨own.1, joint, by rw [same, same']; rfl, rfl⟩
    · exact .inr ⟨other, takes_pure.mp takes⟩
  · intro formed
    rcases formed with ⟨own, joint, rfl, rfl⟩ | ⟨other, same⟩
    · left
      have free : is_keyword ['X'] = false := by decide
      refine ⟨⟨own, isSome_of_front pair_front_cons⟩, ?_⟩
      exact takes_bind.mpr ⟨(), _, takes_expect.mpr pair_front_cons,
        takes_bind.mpr ⟨_, _, takes_expect.mpr (ident_front_cons free),
          takes_ite.mpr (.inr ⟨by simp, takes_pure.mpr ⟨rfl, rfl⟩⟩)⟩⟩
    · exact .inr ⟨other, takes_pure.mpr same⟩

/-- What is read as the name of a state is spelled so. -/
theorem name_of_takes (takes : (parse_named parse_name).Takes input last rest) :
    ∃ front spelling, input = front ++ rest ∧ NameTokens front spelling ∧
      last = named_state spelling := by
  obtain ⟨first, mid, read, further⟩ := takes_bind.mp takes
  obtain ⟨named, behind, composed, ended⟩ := takes_bind.mp further
  rcases parse_name_takes read with ⟨value, suffix, rfl, rfl⟩ | ⟨name, rfl, own, rfl⟩
  · have state : state_ident value ≠ "state".toList := state_ident_ne rfl
    have sml : state_ident value ≠ "sml".toList := state_ident_ne rfl
    rcases parse_composite_takes.mp composed with ⟨same, _⟩ | ⟨_, rfl, rfl⟩
    · exact absurd same state
    · rcases parse_terminal_takes.mp ended with ⟨same, _⟩ | ⟨_, rfl, rfl⟩
      · exact absurd same sml
      · exact ⟨[_], _, rfl, .literal value suffix, rfl⟩
  · rcases parse_composite_takes.mp composed with
      ⟨same, child, opens, closes, free, rfl, rfl⟩ | ⟨_, rfl, rfl⟩
    · have sml : state_ident child ≠ "sml".toList := state_ident_ne rfl
      rcases parse_terminal_takes.mp ended with ⟨same', _⟩ | ⟨_, rfl, rfl⟩
      · exact absurd same' sml
      · obtain rfl : name = "state".toList := same
        exact ⟨[_, _, _, _], _, rfl, .composite free, rfl⟩
    · rcases parse_terminal_takes.mp ended with ⟨same, joint, rfl, rfl⟩ | ⟨_, rfl, rfl⟩
      · obtain rfl : name = "sml".toList := same
        exact ⟨[_, _, _, _], _, rfl, .terminal, rfl⟩
      · exact ⟨[_], _, rfl, .identifier own, rfl⟩

theorem parse_name_literal (value suffix : Text) :
    parse_name.Takes (.string value suffix :: rest) (named_state (.literal value)) rest := by
  unfold parse_name
  rw [takes_peek_bind, takes_ite]
  exact .inl ⟨rfl, takes_bind.mpr ⟨(value, suffix), rest, takes_expect.mpr rfl,
    takes_pure.mpr ⟨rfl, rfl⟩⟩⟩

theorem parse_name_identifier {name : Text} (own : is_keyword name = false) :
    parse_name.Takes (.ident name :: rest) (named_state (.identifier name)) rest := by
  unfold parse_name
  rw [takes_peek_bind, takes_ite]
  exact .inr ⟨Bool.false_ne_true,
    takes_bind.mpr ⟨name, rest, takes_expect.mpr (ident_front_cons own),
      takes_pure.mpr ⟨rfl, rfl⟩⟩⟩

theorem Apart.no_composite (apart : Apart rest) :
    (parse_composite named).Takes rest named rest := by
  refine parse_composite_takes.mpr (.inr ⟨fun both => ?_, rfl, rfl⟩)
  rw [apart.angle] at both
  cases both.2

theorem Apart.no_terminal (apart : Apart rest) :
    (parse_terminal named).Takes rest named rest := by
  refine parse_terminal_takes.mpr (.inr ⟨fun both => ?_, rfl, rfl⟩)
  rw [apart.path] at both
  cases both.2

/-- A state that is spelled is read where nothing goes on with it. -/
theorem name_takes {front : TokenStream} (name : NameTokens front spelling)
    (apart : Apart rest) :
    (parse_named parse_name).Takes (front ++ rest) (named_state spelling) rest := by
  cases name with
  | literal value suffix =>
    exact takes_bind.mpr ⟨_, _, parse_name_literal value suffix,
      takes_bind.mpr ⟨_, _, apart.no_composite, apart.no_terminal⟩⟩
  | identifier own =>
    exact takes_bind.mpr ⟨_, _, parse_name_identifier own,
      takes_bind.mpr ⟨_, _, apart.no_composite, apart.no_terminal⟩⟩
  | @terminal joint =>
    refine takes_bind.mpr ⟨_, _, parse_name_identifier (by decide),
      takes_bind.mpr ⟨_, _, parse_composite_takes.mpr (.inr ⟨?_, rfl, rfl⟩),
        parse_terminal_takes.mpr (.inl ⟨rfl, joint, rfl, rfl⟩)⟩⟩
    exact fun both => absurd both.1 (by decide)
  | @composite child opens closes own =>
    refine takes_bind.mpr ⟨_, _, parse_name_identifier (by decide),
      takes_bind.mpr ⟨_, _, parse_composite_takes.mpr
        (.inl ⟨rfl, child, opens, closes, own, rfl, rfl⟩), apart.no_terminal⟩⟩

end Names

section States

variable {input rest : TokenStream} {written : Option (SynType D)}

theorem DataTokens.apart {data : TokenStream} (carried : DataTokens syn data written)
    (apart : Apart rest) : Apart (data ++ rest) := by
  cases carried with
  | none => exact apart
  | some => exact apart_group

theorem parse_data_type_takes {invalid : String} {data_type : SynType D} :
    (parse_data_type syn invalid).Takes input data_type rest ↔
      ∃ content, input = .group .parenthesis content :: rest ∧
        syn.parse_type.Takes content data_type [] ∧ data_type.supported = true := by
  unfold parse_data_type
  rw [takes_within]
  apply exists_congr
  intro content
  rw [group_front_eq, and_congr_right_iff]
  intro
  constructor
  · intro takes
    obtain ⟨own, mid, read, further⟩ := takes_bind.mp takes
    rcases takes_ite.mp further with ⟨supported, ends⟩ | ⟨_, failed⟩
    · obtain ⟨rfl, rfl⟩ := takes_pure.mp ends
      exact ⟨read, supported⟩
    · exact absurd failed takes_fail
  · intro both
    exact takes_bind.mpr ⟨_, _, both.1,
      takes_ite.mpr (.inl ⟨both.2, takes_pure.mpr ⟨rfl, rfl⟩⟩)⟩

/-- What is read as data is spelled so. -/
theorem data_of_takes {invalid : String} {inferred data : Option (SynType D)}
    (takes : (parse_data syn invalid inferred).Takes input data rest) :
    ∃ front written, input = front ++ rest ∧ DataTokens syn front written ∧
      data = written.or inferred := by
  unfold parse_data at takes
  rw [takes_peek_bind, takes_ite] at takes
  rcases takes with ⟨_, takes⟩ | ⟨_, takes⟩
  · obtain ⟨data_type, mid, read, ends⟩ := takes_bind.mp takes
    obtain ⟨rfl, rfl⟩ := takes_pure.mp ends
    obtain ⟨content, same, typed, supported⟩ := (parse_data_type_takes syn).mp read
    exact ⟨[.group .parenthesis content], some data_type, same, .some typed supported,
      rfl⟩
  · obtain ⟨rfl, rfl⟩ := takes_pure.mp takes
    exact ⟨[], none, rfl, .none, rfl⟩

/-- Data that are spelled are read. -/
theorem data_takes {front : TokenStream} {invalid : String}
    {inferred : Option (SynType D)} (carried : DataTokens syn front written)
    (ended : group_front .parenthesis rest = none) :
    (parse_data syn invalid inferred).Takes (front ++ rest) (written.or inferred)
      rest := by
  unfold parse_data
  rw [takes_peek_bind, takes_ite]
  cases carried with
  | none =>
    right
    refine ⟨?_, takes_pure.mpr ⟨rfl, rfl⟩⟩
    rw [List.nil_append, ended]
    exact Bool.false_ne_true
  | @some content data_type takes supported =>
    left
    exact ⟨rfl, takes_bind.mpr ⟨data_type, rest,
      (parse_data_type_takes syn).mpr ⟨content, rfl, takes, supported⟩,
      takes_pure.mpr ⟨rfl, rfl⟩⟩⟩

theorem input_data_takes {wildcard : Bool} {composite : Option Text}
    {data : Option (SynType D) × Bool} :
    (InputState.parse_data syn wildcard composite).Takes input data rest ↔
      (∃ content data_type, input = .group .parenthesis content :: rest ∧
        wildcard = false ∧ syn.parse_type.Takes content data_type [] ∧
        data_type.supported = true ∧
        data = if data_type.is_history then (none, true) else (some data_type, false)) ∨
      (group_front .parenthesis input = none ∧
        data = (composite.map .of_ident, false) ∧ rest = input) := by
  unfold InputState.parse_data
  rw [takes_peek_bind, takes_ite]
  constructor
  · intro takes
    rcases takes with ⟨present, takes⟩ | ⟨missing, takes⟩
    · left
      obtain ⟨content, found, further⟩ := takes_within.mp takes
      obtain ⟨data_type, mid, read, checked⟩ := takes_bind.mp further
      rcases takes_ite.mp checked with ⟨_, failed⟩ | ⟨native, checked'⟩
      · exact absurd failed takes_fail
      · rcases takes_ite.mp checked' with ⟨_, failed⟩ | ⟨supported, ends⟩
        · exact absurd failed takes_fail
        · rw [Bool.not_eq_true] at native
          rw [Bool.not_eq_true, Bool.not_eq_false'] at supported
          rcases takes_ite.mp ends with ⟨history, ended⟩ | ⟨plain, ended⟩
          · obtain ⟨rfl, rfl⟩ := takes_pure.mp ended
            exact ⟨content, data_type, group_front_eq.mp found, native, read, supported,
              (if_pos history).symm⟩
          · obtain ⟨rfl, rfl⟩ := takes_pure.mp ended
            exact ⟨content, data_type, group_front_eq.mp found, native, read, supported,
              (if_neg plain).symm⟩
    · right
      obtain ⟨rfl, rfl⟩ := takes_pure.mp takes
      exact ⟨Option.not_isSome_iff_eq_none.mp missing, rfl, rfl⟩
  · intro formed
    rcases formed with ⟨content, data_type, rfl, rfl, read, supported, rfl⟩ |
      ⟨missing, rfl, rfl⟩
    · left
      refine ⟨isSome_of_front group_front_cons, takes_within.mpr
        ⟨content, group_front_cons, takes_bind.mpr ⟨data_type, [], read, ?_⟩⟩⟩
      rw [takes_ite]
      refine .inr ⟨Bool.false_ne_true, takes_ite.mpr (.inr ⟨by simp [supported], ?_⟩)⟩
      rw [takes_ite]
      by_cases history : data_type.is_history = true
      · exact .inl ⟨history, takes_pure.mpr ⟨if_pos history, rfl⟩⟩
      · exact .inr ⟨history, takes_pure.mpr ⟨if_neg history, rfl⟩⟩
    · right
      exact ⟨by simp [missing], takes_pure.mpr ⟨rfl, rfl⟩⟩

end States

section Inputs

variable {input rest : TokenStream} {state : InputState D}

/-- A state behind its `*`, if it has one. -/
theorem started {tokens : TokenStream} {start : Bool}
    (inner : InputTokens syn tokens state) (plain : state.start = false)
    (apart : start = true → tokens ≠ [.ident ['_']])
    (opened : (accept (punct_front '*') : Parser Bool).Takes input start (tokens ++ rest)) :
    ∃ front, input = front ++ rest ∧
      InputTokens syn front { state with start := start } := by
  rcases takes_accept.mp opened with ⟨rfl, _, found⟩ | ⟨rfl, _, rfl⟩
  · obtain ⟨joint, rfl⟩ := punct_front_eq.mp found
    exact ⟨.punct '*' joint :: tokens, rfl, .start inner plain (apart rfl)⟩
  · refine ⟨tokens, rfl, ?_⟩
    rw [← plain]
    exact inner

/-- A state that is spelled is no wildcard. -/
theorem name_ne_wildcard {front data : TokenStream} {spelling : StateSpelling}
    (name : NameTokens front spelling) : front ++ data ≠ [.ident ['_']] := by
  cases name with
  | identifier own =>
    intro same
    cases same
    exact absurd own (by decide)
  | literal => nofun
  | terminal => nofun
  | composite => nofun

/-- A wildcard is read as it is, and nothing goes on with it. -/
theorem underscore_takes {source : Text} {named : NamedState} :
    (parse_named (pure { ident := ['_'], source := source })).Takes input named rest ↔
      named = { ident := ['_'], source := source } ∧ rest = input := by
  have state : ¬ (['_'] = "state".toList ∧ (punct_front '<' input).isSome) :=
    fun both => absurd both.1 (by decide)
  have sml : ¬ (['_'] = "sml".toList ∧ (pair_front ':' input).isSome) :=
    fun both => absurd both.1 (by decide)
  constructor
  · intro takes
    obtain ⟨first, mid, read, further⟩ := takes_bind.mp takes
    obtain ⟨rfl, rfl⟩ := takes_pure.mp read
    obtain ⟨second, behind, composed, ended⟩ := takes_bind.mp further
    rcases parse_composite_takes.mp composed with ⟨same, _⟩ | ⟨_, rfl, rfl⟩
    · exact absurd same (show ['_'] ≠ "state".toList by decide)
    · rcases parse_terminal_takes.mp ended with ⟨same, _⟩ | ⟨_, same, same'⟩
      · exact absurd same (show ['_'] ≠ "sml".toList by decide)
      · exact ⟨same, same'⟩
  · intro same
    obtain ⟨rfl, rfl⟩ := same
    exact takes_bind.mpr ⟨_, _, takes_pure.mpr ⟨rfl, rfl⟩, takes_bind.mpr
      ⟨_, _, parse_composite_takes.mpr (.inr ⟨state, rfl, rfl⟩),
        parse_terminal_takes.mpr (.inr ⟨sml, rfl, rfl⟩)⟩⟩

/-- The data of a source, as they are read. -/
theorem carried_of_takes {named : NamedState} {data : Option (SynType D) × Bool}
    {spelling : StateSpelling} (same : named = named_state spelling)
    (takes : (InputState.parse_data syn false named.composite).Takes input data rest) :
    ∃ front written, input = front ++ rest ∧ DataTokens syn front written ∧
      named_input spelling written =
        { start := false
          wildcard := false
          ident := named.ident
          source := named.source
          data_type := data.1
          composite := named.composite
          history := data.2 } := by
  subst same
  rcases (input_data_takes syn).mp takes with
    ⟨content, data_type, rfl, _, read, supported, rfl⟩ | ⟨_, rfl, rfl⟩
  · refine ⟨[.group .parenthesis content], some data_type, rfl, .some read supported, ?_⟩
    cases history : data_type.is_history <;>
      simp [named_input, named_state, state_data, history]
  · exact ⟨[], none, rfl, .none, by simp [named_input, named_state, state_data]⟩

/-- The state that is read between parentheses. -/
theorem grouped_takes {depth : Nat} {message : String} {content : TokenStream} :
    (do
      let grouped ← InputState.parse syn depth
      if !(← is_empty) || grouped.start then fail (.row message)
      else pure grouped : Parser (InputState D)).Takes content state rest ↔
      (InputState.parse syn depth).Takes content state [] ∧ state.start = false ∧
        rest = [] := by
  constructor
  · intro takes
    obtain ⟨grouped, mid, read, further⟩ := takes_bind.mp takes
    obtain ⟨empty, behind, looked, checked⟩ := takes_bind.mp further
    obtain ⟨rfl, rfl⟩ := takes_is_empty.mp looked
    rcases takes_ite.mp checked with ⟨_, failed⟩ | ⟨used, ends⟩
    · exact absurd failed takes_fail
    · obtain ⟨rfl, rfl⟩ := takes_pure.mp ends
      simp only [Bool.or_eq_true, Bool.not_eq_true', not_or, Bool.not_eq_false,
        Bool.not_eq_true, List.isEmpty_iff] at used
      obtain ⟨rfl, plain⟩ := used
      exact ⟨read, plain, rfl⟩
  · intro formed
    obtain ⟨read, plain, rfl⟩ := formed
    refine takes_bind.mpr ⟨_, _, read, takes_bind.mpr ⟨_, _, takes_is_empty.mpr ⟨rfl, rfl⟩,
      takes_ite.mpr (.inr ⟨?_, takes_pure.mpr ⟨rfl, rfl⟩⟩)⟩⟩
    simp [plain]

/-- What is read as a source is spelled as one. The induction is on the groups around
it. -/
theorem input_of_takes {depth : Nat}
    (takes : (InputState.parse syn depth).Takes input state rest) :
    ∃ front, input = front ++ rest ∧ InputTokens syn front state := by
  induction depth generalizing input state rest with
  | zero => exact absurd takes takes_fail
  | succ depth ih =>
    unfold InputState.parse at takes
    obtain ⟨start, mid, opened, further⟩ := takes_bind.mp takes
    rw [takes_peek_bind, takes_ite] at further
    rcases further with ⟨_, further⟩ | ⟨_, further⟩
    · obtain ⟨grouped, behind, enclosed, ends⟩ := takes_bind.mp further
      obtain ⟨rfl, rfl⟩ := takes_pure.mp ends
      obtain ⟨content, found, inner⟩ := takes_within.mp enclosed
      obtain ⟨read, plain, _⟩ := (grouped_takes syn).mp inner
      obtain ⟨front, same, spelled⟩ := ih read
      rw [List.append_nil] at same
      subst same
      rw [group_front_eq.mp found] at opened
      exact started syn (.group spelled plain) plain (by simp) opened
    · obtain ⟨wildcard, mid', underscored, further⟩ := takes_bind.mp further
      rcases takes_ite.mp further with ⟨_, failed⟩ | ⟨apart, further⟩
      · exact absurd failed takes_fail
      obtain ⟨named, behind, name, further⟩ := takes_bind.mp further
      obtain ⟨data, last, carried, ends⟩ := takes_bind.mp further
      obtain ⟨rfl, rfl⟩ := takes_pure.mp ends
      cases wildcard with
      | true =>
        rw [if_pos rfl] at name
        obtain ⟨rfl, rfl⟩ := underscore_takes.mp name
        rcases takes_accept.mp underscored with ⟨_, _, found⟩ | ⟨same, _⟩
        · rcases (input_data_takes syn).mp carried with ⟨_, _, _, same, _⟩ | ⟨_, rfl, rfl⟩
          · cases same
          · rw [word_front_eq.mp found] at opened
            refine started syn .wildcard rfl (fun set => ?_) opened
            simp [set] at apart
        · cases same
      | false =>
        rw [if_neg Bool.false_ne_true] at name
        rcases takes_accept.mp underscored with ⟨same, _⟩ | ⟨_, _, rfl⟩
        · cases same
        · obtain ⟨front, spelling, rfl, spelled, same⟩ := name_of_takes name
          obtain ⟨back, written, rfl, data', same'⟩ := carried_of_takes syn same carried
          rw [← List.append_assoc] at opened
          obtain ⟨whole, split, formed⟩ := started syn (.named spelled data') rfl
            (fun _ => name_ne_wildcard spelled) opened
          refine ⟨whole, split, ?_⟩
          rw [same'] at formed
          exact formed

/-- What a state that is spelled begins with. -/
theorem name_begins {front more : TokenStream} {spelling : StateSpelling}
    (name : NameTokens front spelling) :
    (∀ char, punct_front char (front ++ more) = none) ∧
      group_front .parenthesis (front ++ more) = none ∧
      word_front ['_'] (front ++ more) = none := by
  cases name with
  | literal => exact ⟨fun _ => rfl, rfl, rfl⟩
  | identifier own =>
    refine ⟨fun _ => rfl, rfl, word_front_other ?_⟩
    intro same
    subst same
    exact absurd own (by decide)
  | terminal => exact ⟨fun _ => rfl, rfl, word_front_other (by decide)⟩
  | composite => exact ⟨fun _ => rfl, rfl, word_front_other (by decide)⟩

theorem unstarred {tokens : TokenStream} (inner : InputTokens syn tokens state)
    (plain : state.start = false) : punct_front '*' (tokens ++ rest) = none := by
  cases inner with
  | wildcard => rfl
  | named name carried =>
    rw [List.append_assoc]
    exact (name_begins name).1 _
  | group => rfl
  | start => cases plain

/-- The data of a source that are spelled are read. -/
theorem carried_takes {data : TokenStream} {written : Option (SynType D)}
    {spelling : StateSpelling} (carried : DataTokens syn data written)
    (ended : Ended rest) :
    (InputState.parse_data syn false (named_state spelling).composite).Takes
      (data ++ rest)
      ((named_input spelling written).data_type, (named_input spelling written).history)
      rest := by
  rw [input_data_takes]
  cases carried with
  | none => exact .inr ⟨ended.group, by simp [named_input, named_state, state_data], rfl⟩
  | @some content data_type takes supported =>
    refine .inl ⟨content, data_type, rfl, rfl, takes, supported, ?_⟩
    cases history : data_type.is_history <;> simp [named_input, state_data, history]

/-- What is spelled as a source without its `*` is read, with or without one. The
induction is on how it is spelled. -/
theorem unstarted_takes {tokens : TokenStream} (inner : InputTokens syn tokens state)
    (plain : state.start = false) {depth : Nat} {start : Bool}
    (deep : TokenTree.nesting.nestings tokens < depth) (ended : Ended rest)
    (apart : start = true → tokens ≠ [.ident ['_']])
    (opened : (accept (punct_front '*') : Parser Bool).Takes input start (tokens ++ rest)) :
    (InputState.parse syn depth).Takes input { state with start := start } rest := by
  induction inner generalizing input rest depth start with
  | wildcard =>
    cases start with
    | true => exact absurd rfl (apart rfl)
    | false =>
      cases depth with
      | zero => exact absurd deep (Nat.not_lt_zero _)
      | succ depth =>
        unfold InputState.parse
        refine takes_bind.mpr ⟨_, _, opened, ?_⟩
        rw [takes_peek_bind, takes_ite]
        refine .inr ⟨Bool.false_ne_true, takes_bind.mpr
          ⟨true, rest, takes_accept.mpr (.inl ⟨rfl, (), word_front_cons⟩), ?_⟩⟩
        refine takes_ite.mpr (.inr ⟨Bool.false_ne_true, ?_⟩)
        refine takes_bind.mpr ⟨_, _, underscore_takes.mpr ⟨rfl, rfl⟩, ?_⟩
        refine takes_bind.mpr ⟨_, _, (input_data_takes syn).mpr
          (.inr ⟨ended.group, rfl, rfl⟩), takes_pure.mpr ⟨rfl, rfl⟩⟩
  | @named name data spelling written spelled carried =>
    cases depth with
    | zero => exact absurd deep (Nat.not_lt_zero _)
    | succ depth =>
      rw [List.append_assoc] at opened
      obtain ⟨_, group, word⟩ := @name_begins name (data ++ rest) _ spelled
      unfold InputState.parse
      refine takes_bind.mpr ⟨_, _, opened, ?_⟩
      rw [takes_peek_bind, takes_ite, group]
      refine .inr ⟨Bool.false_ne_true, takes_bind.mpr
        ⟨false, _, takes_accept.mpr (.inr ⟨rfl, word, rfl⟩), ?_⟩⟩
      refine takes_ite.mpr (.inr ⟨by simp, ?_⟩)
      refine takes_bind.mpr ⟨_, _, name_takes spelled (carried.apart syn ended.toApart), ?_⟩
      exact takes_bind.mpr ⟨_, _, carried_takes syn carried ended,
        takes_pure.mpr ⟨rfl, rfl⟩⟩
  | @group content state inner plain' ih =>
    cases depth with
    | zero => exact absurd deep (Nat.not_lt_zero _)
    | succ depth =>
      have deep' : TokenTree.nesting.nestings content < depth := by
        simpa [TokenTree.nesting.nestings, TokenTree.nesting] using deep
      have read := @ih content [] plain' depth false deep' ended_nil nofun
        (takes_accept.mpr (.inr ⟨rfl, by
          rw [← List.append_nil content]
          exact unstarred syn inner plain', List.append_nil content⟩))
      rw [← plain'] at read
      unfold InputState.parse
      refine takes_bind.mpr ⟨_, _, opened, ?_⟩
      rw [takes_peek_bind, takes_ite]
      refine .inl ⟨isSome_of_front group_front_cons,
        takes_bind.mpr ⟨state, rest, ?_, takes_pure.mpr ⟨rfl, rfl⟩⟩⟩
      exact takes_within.mpr ⟨content, group_front_cons,
        (grouped_takes syn).mpr ⟨read, plain', rfl⟩⟩
  | start => cases plain

/-- What is spelled as a source is read where nothing goes on with it. -/
theorem input_takes {front : TokenStream} (spelled : InputTokens syn front state)
    {depth : Nat} (deep : TokenTree.nesting.nestings front < depth)
    (ended : Ended rest) :
    (InputState.parse syn depth).Takes (front ++ rest) state rest := by
  by_cases plain : state.start = false
  · have read := @unstarted_takes _ _ syn (front ++ rest) _ _ _ spelled plain depth false
      deep ended nofun (takes_accept.mpr (.inr ⟨rfl, unstarred syn spelled plain, rfl⟩))
    rw [← plain] at read
    exact read
  · cases spelled with
    | wildcard => exact absurd rfl plain
    | named => exact absurd rfl plain
    | group _ plain' => exact absurd plain' plain
    | @start tokens state joint inner plain' apart =>
      refine unstarted_takes syn inner plain' ?_ ended (fun _ => apart)
        (takes_accept.mpr (.inl ⟨rfl, (), punct_front_cons⟩))
      simpa [TokenTree.nesting.nestings, TokenTree.nesting] using deep

end Inputs

section Outputs

variable {input rest : TokenStream} {state : OutputState D}

/-- What is read as a target is spelled as one. -/
theorem output_of_takes (takes : (OutputState.parse syn).Takes input state rest) :
    ∃ front, input = front ++ rest ∧ OutputTokens syn front state := by
  unfold OutputState.parse at takes
  rw [takes_peek_bind, takes_ite] at takes
  rcases takes with ⟨_, takes⟩ | ⟨_, takes⟩
  · obtain ⟨_, mid, equals, further⟩ := takes_bind.mp takes
    obtain ⟨joint, rfl⟩ := punct_front_eq.mp (takes_expect.mp equals)
    rw [takes_peek_bind] at further
    obtain ⟨named, behind, name, carried⟩ := takes_bind.mp further
    obtain ⟨data, last, typed, ends⟩ := takes_bind.mp carried
    obtain ⟨rfl, rfl⟩ := takes_pure.mp ends
    cases internal : (word_front ['_'] mid).isSome with
    | true =>
      rw [internal, if_pos rfl] at name
      rw [internal, if_pos rfl] at typed
      obtain ⟨rfl, rfl⟩ := takes_pure.mp typed
      obtain ⟨_, after, found⟩ := front_of_isSome internal
      obtain rfl := word_front_eq.mp found
      obtain ⟨first, start, read, composed⟩ := takes_bind.mp name
      obtain ⟨_, start', underscore, ended⟩ := takes_bind.mp read
      obtain ⟨rfl, rfl⟩ := takes_pure.mp ended
      obtain ⟨_, same⟩ := List.cons.inj (word_front_eq.mp (takes_expect.mp underscore))
      subst same
      obtain ⟨rfl, rfl⟩ := underscore_takes.mp
        (takes_bind.mpr ⟨_, _, takes_pure.mpr ⟨rfl, rfl⟩, composed⟩)
      exact ⟨[.punct '=' joint, .ident ['_']], rfl, .underscore⟩
    | false =>
      rw [internal, if_neg Bool.false_ne_true] at name
      rw [internal, if_neg Bool.false_ne_true] at typed
      obtain ⟨front, spelling, rfl, spelled, rfl⟩ := name_of_takes name
      obtain ⟨back, written, rfl, behind', rfl⟩ := data_of_takes syn typed
      refine ⟨.punct '=' joint :: (front ++ back), ?_, .named spelled behind'⟩
      rw [List.cons_append, List.append_assoc]
  · obtain ⟨rfl, rfl⟩ := takes_pure.mp takes
    exact ⟨[], rfl, .implicit⟩

/-- A target that is spelled is read to the end of the row. -/
theorem output_takes {front : TokenStream} (spelled : OutputTokens syn front state) :
    (OutputState.parse syn).Takes front state [] := by
  unfold OutputState.parse
  rw [takes_peek_bind, takes_ite]
  cases spelled with
  | implicit => exact .inr ⟨Bool.false_ne_true, takes_pure.mpr ⟨rfl, rfl⟩⟩
  | @underscore joint =>
    left
    refine ⟨rfl, takes_bind.mpr ⟨(), _, takes_expect.mpr punct_front_cons, ?_⟩⟩
    rw [takes_peek_bind]
    refine takes_bind.mpr ⟨{ ident := ['_'], source := "identifier:_".toList }, [], ?_,
      takes_bind.mpr ⟨none, [], takes_pure.mpr ⟨rfl, rfl⟩, takes_pure.mpr ⟨rfl, rfl⟩⟩⟩
    rw [word_front_cons]
    refine takes_bind.mpr ⟨_, _, takes_bind.mpr ⟨(), [],
      takes_expect.mpr word_front_cons, takes_pure.mpr ⟨rfl, rfl⟩⟩, ?_⟩
    obtain ⟨_, _, read, composed⟩ := takes_bind.mp
      (@underscore_takes [] [] "identifier:_".toList _ |>.mpr ⟨rfl, rfl⟩)
    obtain ⟨rfl, rfl⟩ := takes_pure.mp read
    exact composed
  | @named name data spelling written joint spelled carried =>
    left
    obtain ⟨_, _, word⟩ := @name_begins name data _ spelled
    refine ⟨rfl, takes_bind.mpr ⟨(), _, takes_expect.mpr punct_front_cons, ?_⟩⟩
    rw [takes_peek_bind, word]
    have apart := @DataTokens.apart _ _ syn [] _ _ carried ended_nil.toApart
    rw [List.append_nil] at apart
    have read := @data_takes _ _ syn [] _ _ "This is an invalid type for states."
      ((child spelling).map .of_ident) carried rfl
    rw [List.append_nil] at read
    exact takes_bind.mpr ⟨named_state spelling, data, name_takes spelled apart,
      takes_bind.mpr ⟨_, [], read, takes_pure.mpr ⟨rfl, rfl⟩⟩⟩

end Outputs

end SmlRs.Macros.Rows
