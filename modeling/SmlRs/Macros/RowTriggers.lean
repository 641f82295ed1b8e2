/-
Module: SmlRs.Macros.RowTriggers
Purpose: The triggers of rows are read exactly where they are spelled.
Trusted boundary: none
Main exports: trigger_of_takes, trigger_takes, event_of_takes, event_takes
-/
import SmlRs.Macros.RowStates

namespace SmlRs.Macros.Rows

open Lib Names Parse

variable {D X : Type} (syn : Syn D X)

/-! ### Triggers are read -/

section Triggers

variable {input rest : TokenStream} {first source : Text}

theorem parse_first_takes {pair : Text × Text}
    (takes : Event.parse_first.Takes input pair rest) :
    (∃ value, input = .string value "_e".toList :: rest ∧
        pair = (state_ident value, "literal:".toList ++ value)) ∨
      ∃ name, input = .ident name :: rest ∧ is_keyword name = false ∧
        pair = (name, "identifier:".toList ++ name) := by
  unfold Event.parse_first at takes
  rw [takes_peek_bind, takes_ite] at takes
  rcases takes with ⟨_, takes⟩ | ⟨_, takes⟩
  · left
    obtain ⟨⟨value, suffix⟩, mid, found, further⟩ := takes_bind.mp takes
    have same := string_front_eq.mp (takes_expect.mp found)
    rcases takes_ite.mp further with ⟨_, failed⟩ | ⟨event, ends⟩
    · exact absurd failed takes_fail
    · obtain rfl := Decidable.not_not.mp event
      obtain ⟨rfl, rfl⟩ := takes_pure.mp ends
      exact ⟨value, same, rfl⟩
  · right
    obtain ⟨name, mid, found, ends⟩ := takes_bind.mp takes
    obtain ⟨rfl, rfl⟩ := takes_pure.mp ends
    obtain ⟨same, own⟩ := ident_front_eq.mp (takes_expect.mp found)
    exact ⟨name, same, own, rfl⟩

theorem parse_first_literal (value : Text) :
    Event.parse_first.Takes (.string value "_e".toList :: rest)
      (state_ident value, "literal:".toList ++ value) rest := by
  unfold Event.parse_first
  rw [takes_peek_bind, takes_ite]
  exact .inl ⟨rfl, takes_bind.mpr ⟨(value, "_e".toList), rest, takes_expect.mpr rfl,
    takes_ite.mpr (.inr ⟨by simp, takes_pure.mpr ⟨rfl, rfl⟩⟩)⟩⟩

theorem parse_first_identifier {name : Text} (own : is_keyword name = false) :
    Event.parse_first.Takes (.ident name :: rest)
      (name, "identifier:".toList ++ name) rest := by
  unfold Event.parse_first
  rw [takes_peek_bind, takes_ite]
  exact .inr ⟨Bool.false_ne_true,
    takes_bind.mpr ⟨name, rest, takes_expect.mpr (ident_front_cons own),
      takes_pure.mpr ⟨rfl, rfl⟩⟩⟩

theorem parse_qualified_takes {pair : Text × Text} :
    (Event.parse_qualified first source).Takes input pair rest ↔
      (first = "sml".toList ∧
        ∃ joint name, is_keyword name = false ∧
          input = .punct ':' true :: .punct ':' joint :: .ident name :: rest ∧
          pair = (name, "identifier:".toList ++ name)) ∨
      (¬ (first = "sml".toList ∧ (pair_front ':' input).isSome) ∧
        pair = (first, source) ∧ rest = input) := by
  unfold Event.parse_qualified
  rw [takes_peek_bind, takes_ite]
  simp only [Bool.and_eq_true, decide_eq_true_eq]
  constructor
  · intro takes
    rcases takes with ⟨own, takes⟩ | ⟨other, takes⟩
    · left
      obtain ⟨_, mid, colons, further⟩ := takes_bind.mp takes
      obtain ⟨joint, same⟩ := pair_front_eq.mp (takes_expect.mp colons)
      obtain ⟨name, behind, found, ends⟩ := takes_bind.mp further
      obtain ⟨same', free⟩ := ident_front_eq.mp (takes_expect.mp found)
      obtain ⟨rfl, rfl⟩ := takes_pure.mp ends
      exact ⟨own.1, joint, name, free, by rw [same, same'], rfl⟩
    · exact .inr ⟨other, takes_pure.mp takes⟩
  · intro formed
    rcases formed with ⟨own, joint, name, free, rfl, rfl⟩ | ⟨other, same⟩
    · left
      exact ⟨⟨own, isSome_of_front pair_front_cons⟩, takes_bind.mpr
        ⟨(), _, takes_expect.mpr pair_front_cons, takes_bind.mpr
          ⟨_, _, takes_expect.mpr (ident_front_cons free), takes_pure.mpr ⟨rfl, rfl⟩⟩⟩⟩
    · exact .inr ⟨other, takes_pure.mpr same⟩

theorem parse_any_takes {α : Type} {parse : Parser α} {value : Option α} :
    (parse_any parse).Takes input value rest ↔
      (input = .ident ['_'] :: rest ∧ value = none) ∨
      (word_front ['_'] input = none ∧
        ∃ own, parse.Takes input own rest ∧ value = some own) := by
  unfold parse_any
  rw [takes_peek_bind, takes_ite]
  constructor
  · intro takes
    rcases takes with ⟨_, takes⟩ | ⟨other, takes⟩
    · obtain ⟨_, mid, found, ends⟩ := takes_bind.mp takes
      obtain ⟨rfl, rfl⟩ := takes_pure.mp ends
      exact .inl ⟨word_front_eq.mp (takes_expect.mp found), rfl⟩
    · obtain ⟨own, mid, read, ends⟩ := takes_bind.mp takes
      obtain ⟨rfl, rfl⟩ := takes_pure.mp ends
      exact .inr ⟨Option.not_isSome_iff_eq_none.mp other, own, read, rfl⟩
  · intro formed
    rcases formed with ⟨rfl, rfl⟩ | ⟨other, own, read, rfl⟩
    · exact .inl ⟨isSome_of_front word_front_cons, takes_bind.mpr
        ⟨(), rest, takes_expect.mpr word_front_cons, takes_pure.mpr ⟨rfl, rfl⟩⟩⟩
    · exact .inr ⟨by simp [other], takes_bind.mpr
        ⟨own, rest, read, takes_pure.mpr ⟨rfl, rfl⟩⟩⟩

/-! #### Types of events -/

/-- A type names an event by the last segment of its path. -/
theorem type_ident_eq (data_type : SynType D) :
    data_type.type_ident = data_type.event_type.map (·.type_ident) := by
  induction data_type with
  | path qself leading_colon segments =>
    cases qself with
    | none =>
      cases found : segments.getLast? <;>
        simp [SynType.type_ident, SynType.event_type, found, EventType.type_ident]
    | some => rfl
  | reference lifetime elem ih =>
    cases found : elem.event_type <;>
      simp [SynType.type_ident, SynType.event_type, ih, found, EventType.type_ident]
  | array => rfl
  | ptr => rfl
  | slice => rfl
  | tuple => rfl
  | other => rfl

theorem external_event_type_takes {pair : Text × SynType D} :
    (external_event_type syn).Takes input pair rest ↔
      ∃ event_type, syn.parse_type.Takes input pair.2 rest ∧
        pair.2.event_type = some event_type ∧ pair.1 = event_type.type_ident := by
  unfold external_event_type
  constructor
  · intro takes
    obtain ⟨data_type, mid, read, further⟩ := takes_bind.mp takes
    rw [type_ident_eq] at further
    cases named : data_type.event_type with
    | none =>
      rw [named] at further
      exact absurd further takes_fail
    | some event_type =>
      rw [named] at further
      obtain ⟨rfl, rfl⟩ := takes_pure.mp further
      exact ⟨event_type, read, named, rfl⟩
  · intro formed
    obtain ⟨ident, data_type⟩ := pair
    obtain ⟨event_type, read, named, rfl⟩ := formed
    refine takes_bind.mpr ⟨_, _, read, ?_⟩
    have named' : data_type.type_ident = some event_type.type_ident := by
      rw [type_ident_eq, named]
      rfl
    rw [named']
    exact takes_pure.mpr ⟨rfl, rfl⟩

/-- A type that is read up to the bracket behind it is spelled. -/
theorem typed_of_takes {closes : Bool} {data_type : SynType D} {event_type : EventType}
    (read : syn.parse_type.Takes input data_type (.punct '>' closes :: rest))
    (named : data_type.event_type = some event_type) :
    ∃ tokens, input = tokens ++ .punct '>' closes :: rest ∧
      EventTypeTokens syn tokens closes data_type event_type := by
  obtain ⟨tokens, rfl⟩ := syn.type_front read
  exact ⟨tokens, rfl, syn.type_closed read, named⟩

theorem EventTypeTokens.read {tokens : TokenStream} {closes : Bool}
    {data_type : SynType D} {event_type : EventType}
    (typed : EventTypeTokens syn tokens closes data_type event_type) :
    (external_event_type syn).Takes (tokens ++ .punct '>' closes :: rest)
      (event_type.type_ident, data_type) (.punct '>' closes :: rest) :=
  (external_event_type_takes syn).mpr
    ⟨event_type, syn.type_closed typed.takes, typed.named, rfl⟩

/-! #### The forms of triggers -/

/-- The event of a trigger, before its source is replaced. -/
def first_event (spelling : EventSpelling) (explicit : Option (SynType D)) : Event D where
  ident := spelling.first.ident
  source := spelling.first.source
  data_type := explicit
  kind := spelling.first.kind
  wildcard := spelling.first.wildcard
  external := spelling.first.external

/-- The parser that a word chooses in front of an angle bracket. -/
def chosen (first source : Text) : Parser (Event D) :=
  if first = "event".toList then Event.parse_external syn
  else if first = "unexpected".toList ∨ first = "unexpected_event".toList then
    Event.parse_unexpected syn first source
  else if first = "on_entry".toList ∨ first = "on_exit".toList then
    Event.parse_lifecycle first
  else if first = "completion".toList then
    Event.parse_origin first source "__AnyCompletion".toList .completion
  else if first = "exception".toList then
    Event.parse_origin first source "__AnyException".toList .exception
  else
    pure
      { ident := first
        source := source
        data_type := none
        kind := .normal
        wildcard := false
        external := false }

theorem parse_trigger_angle {event : Event D}
    (angle : (punct_front '<' input).isSome = true) :
    (Event.parse_trigger syn first source).Takes input event rest ↔
      (chosen syn first source).Takes input event rest := by
  unfold Event.parse_trigger chosen
  simp only [takes_peek_bind, takes_ite, angle, Bool.and_true, Bool.or_eq_true,
    decide_eq_true_eq]

theorem parse_trigger_plain {event : Event D}
    (angle : punct_front '<' input = none) :
    (Event.parse_trigger syn first source).Takes input event rest ↔
      event =
        { ident := first
          source := source
          data_type := none
          kind := .normal
          wildcard := false
          external := false } ∧ rest = input := by
  unfold Event.parse_trigger
  simp only [takes_peek_bind, takes_ite, angle, Option.isSome_none, Bool.and_false,
    Bool.false_eq_true, false_and, not_false_eq_true, true_and, false_or, takes_pure]

theorem parse_external_takes {event : Event D} :
    (Event.parse_external syn).Takes input event rest ↔
      ∃ opens closes tokens data_type event_type,
        input = .punct '<' opens :: (tokens ++ .punct '>' closes :: rest) ∧
        EventTypeTokens syn tokens closes data_type event_type ∧
        event = first_event (.event event_type) (some data_type) := by
  unfold Event.parse_external
  constructor
  · intro takes
    obtain ⟨⟨ident, data_type⟩, mid, read, ends⟩ := takes_bind.mp takes
    obtain ⟨rfl, rfl⟩ := takes_pure.mp ends
    obtain ⟨opens, closes, inner, rfl, found⟩ := angled_takes.mp read
    obtain ⟨event_type, typed, named, same⟩ := (external_event_type_takes syn).mp found
    obtain ⟨tokens, rfl, spelled⟩ := typed_of_takes syn typed named
    obtain rfl : ident = _ := same
    exact ⟨opens, closes, tokens, data_type, event_type, rfl, spelled, rfl⟩
  · intro formed
    obtain ⟨opens, closes, tokens, data_type, event_type, rfl, spelled, rfl⟩ := formed
    exact takes_bind.mpr ⟨_, _, angled_takes.mpr ⟨opens, closes, _, rfl, spelled.read⟩,
      takes_pure.mpr ⟨rfl, rfl⟩⟩

theorem word_front_closed {word : Text} {tokens : TokenStream} {char : Char}
    {joint : Bool} :
    word_front word (tokens ++ .punct char joint :: rest) = none ↔
      word_front word tokens = none := by
  cases tokens with
  | nil => exact Iff.rfl
  | cons token tokens =>
    cases token with
    | ident name => simp [word_front]
    | punct => exact Iff.rfl
    | string => exact Iff.rfl
    | literal => exact Iff.rfl
    | group => exact Iff.rfl

theorem parse_unexpected_takes {event : Event D} :
    (Event.parse_unexpected syn first source).Takes input event rest ↔
      (∃ opens closes,
        input = .punct '<' opens :: .ident ['_'] :: .punct '>' closes :: rest ∧
        event = { first_event .unexpected_any none with source := source }) ∨
      ∃ opens closes tokens data_type event_type,
        input = .punct '<' opens :: (tokens ++ .punct '>' closes :: rest) ∧
        word_front ['_'] tokens = none ∧
        EventTypeTokens syn tokens closes data_type event_type ∧
        event =
          if first = "unexpected_event".toList then
            first_event (.unexpected_event event_type) (some data_type)
          else first_event (.unexpected event_type) none := by
  unfold Event.parse_unexpected
  constructor
  · intro takes
    obtain ⟨found, mid, read, ends⟩ := takes_bind.mp takes
    obtain ⟨opens, closes, inner, rfl, any⟩ := angled_takes.mp read
    rcases parse_any_takes.mp any with ⟨rfl, rfl⟩ | ⟨other, ⟨ident, data_type⟩, typed, rfl⟩
    · left
      obtain ⟨rfl, rfl⟩ := takes_pure.mp ends
      exact ⟨opens, closes, rfl, rfl⟩
    · right
      obtain ⟨event_type, typed', named, same⟩ := (external_event_type_takes syn).mp typed
      obtain ⟨tokens, rfl, spelled⟩ := typed_of_takes syn typed' named
      obtain rfl : ident = _ := same
      refine ⟨opens, closes, tokens, data_type, event_type, ?_,
        word_front_closed.mp other, spelled, ?_⟩
      · rcases takes_ite.mp ends with ⟨_, ends⟩ | ⟨_, ends⟩
        · rw [(takes_pure.mp ends).2]
        · rw [(takes_pure.mp ends).2]
      · rcases takes_ite.mp ends with ⟨external, ends⟩ | ⟨internal, ends⟩
        · rw [(takes_pure.mp ends).1, if_pos external]
          rfl
        · rw [(takes_pure.mp ends).1, if_neg internal]
          rfl
  · intro formed
    rcases formed with ⟨opens, closes, rfl, rfl⟩ |
      ⟨opens, closes, tokens, data_type, event_type, rfl, other, spelled, rfl⟩
    · exact takes_bind.mpr ⟨none, rest, angled_takes.mpr
        ⟨opens, closes, _, rfl, parse_any_takes.mpr (.inl ⟨rfl, rfl⟩)⟩,
        takes_pure.mpr ⟨rfl, rfl⟩⟩
    · refine takes_bind.mpr ⟨some (event_type.type_ident, data_type), rest,
        angled_takes.mpr ⟨opens, closes, _, rfl, parse_any_takes.mpr
          (.inr ⟨word_front_closed.mpr other, _, spelled.read, rfl⟩)⟩, ?_⟩
      change (if first = _ then _ else _ : Parser (Event D)).Takes _ _ _
      rw [takes_ite]
      by_cases external : first = "unexpected_event".toList
      · rw [if_pos external]
        exact .inl ⟨external, takes_pure.mpr ⟨rfl, rfl⟩⟩
      · rw [if_neg external]
        exact .inr ⟨external, takes_pure.mpr ⟨rfl, rfl⟩⟩

theorem parse_lifecycle_takes {event : Event D} :
    (Event.parse_lifecycle first).Takes input event rest ↔
      ∃ opens closes,
        input = .punct '<' opens :: .ident ['_'] :: .punct '>' closes :: rest ∧
        event =
          { ident := first
            source := "lifecycle:".toList ++ first
            data_type := none
            kind := if first = "on_entry".toList then .entry else .exit
            wildcard := false
            external := false } := by
  unfold Event.parse_lifecycle
  constructor
  · intro takes
    obtain ⟨_, mid, read, ends⟩ := takes_bind.mp takes
    obtain ⟨rfl, rfl⟩ := takes_pure.mp ends
    obtain ⟨opens, closes, inner, rfl, any⟩ := angled_takes.mp read
    rw [word_front_eq.mp (takes_expect.mp any)]
    exact ⟨opens, closes, rfl, rfl⟩
  · intro formed
    obtain ⟨opens, closes, rfl, rfl⟩ := formed
    exact takes_bind.mpr ⟨(), rest, angled_takes.mpr
      ⟨opens, closes, _, rfl, takes_expect.mpr word_front_cons⟩,
      takes_pure.mpr ⟨rfl, rfl⟩⟩

theorem parse_origin_takes {any : Text} {kind : EventKind} {event : Event D} :
    (Event.parse_origin first source any kind).Takes input event rest ↔
      (∃ opens closes,
        input = .punct '<' opens :: .ident ['_'] :: .punct '>' closes :: rest ∧
        event =
          { ident := any
            source := source
            data_type := none
            kind := kind
            wildcard := true
            external := false }) ∨
      ∃ opens closes name, is_keyword name = false ∧
        input = .punct '<' opens :: .ident name :: .punct '>' closes :: rest ∧
        event =
          { ident := name
            source := first ++ ':' :: name
            data_type := none
            kind := kind
            wildcard := false
            external := false } := by
  unfold Event.parse_origin
  constructor
  · intro takes
    obtain ⟨found, mid, read, ends⟩ := takes_bind.mp takes
    obtain ⟨opens, closes, inner, rfl, named⟩ := angled_takes.mp read
    rcases parse_any_takes.mp named with ⟨rfl, rfl⟩ | ⟨other, name, own, rfl⟩
    · left
      obtain ⟨rfl, rfl⟩ := takes_pure.mp ends
      exact ⟨opens, closes, rfl, rfl⟩
    · right
      obtain ⟨rfl, rfl⟩ := takes_pure.mp ends
      obtain ⟨rfl, free⟩ := ident_front_eq.mp (takes_expect.mp own)
      exact ⟨opens, closes, name, free, rfl, rfl⟩
  · intro formed
    rcases formed with ⟨opens, closes, rfl, rfl⟩ | ⟨opens, closes, name, free, rfl, rfl⟩
    · exact takes_bind.mpr ⟨none, rest, angled_takes.mpr
        ⟨opens, closes, _, rfl, parse_any_takes.mpr (.inl ⟨rfl, rfl⟩)⟩,
        takes_pure.mpr ⟨rfl, rfl⟩⟩
    · have other : name ≠ ['_'] := by
        intro same
        subst same
        exact absurd free (by decide)
      exact takes_bind.mpr ⟨some name, rest, angled_takes.mpr
        ⟨opens, closes, _, rfl, parse_any_takes.mpr
          (.inr ⟨word_front_other other, name, takes_expect.mpr (ident_front_cons free),
            rfl⟩)⟩,
        takes_pure.mpr ⟨rfl, rfl⟩⟩

theorem angle_split {word opens closes : TokenTree} {tokens : TokenStream} :
    word :: opens :: (tokens ++ closes :: rest) =
      word :: opens :: (tokens ++ [closes]) ++ rest := by
  simp

/-- What is read as a trigger is spelled as one. -/
theorem trigger_of_takes {name : Text} {event : Event D} (own : is_keyword name = false)
    (takes : (Event.parse_trigger syn name ("identifier:".toList ++ name)).Takes input
      event rest) :
    ∃ front spelling explicit, .ident name :: input = front ++ rest ∧
      TriggerTokens syn front spelling explicit ∧ event = first_event spelling explicit := by
  cases angle : (punct_front '<' input).isSome with
  | false =>
    rw [parse_trigger_plain syn (Option.isSome_eq_false_iff.mp angle |>
      Option.isNone_iff_eq_none.mp)] at takes
    obtain ⟨rfl, rfl⟩ := takes
    exact ⟨[_], _, none, rfl, .identifier own, rfl⟩
  | true =>
    rw [parse_trigger_angle syn angle] at takes
    unfold chosen at takes
    rcases takes_ite.mp takes with ⟨rfl, takes⟩ | ⟨_, takes⟩
    · obtain ⟨opens, closes, tokens, data_type, event_type, rfl, spelled, rfl⟩ :=
        (parse_external_takes syn).mp takes
      exact ⟨_, _, _, angle_split, .event spelled, rfl⟩
    rcases takes_ite.mp takes with ⟨word, takes⟩ | ⟨_, takes⟩
    · rcases (parse_unexpected_takes syn).mp takes with ⟨opens, closes, rfl, rfl⟩ |
        ⟨opens, closes, tokens, data_type, event_type, rfl, apart, spelled, rfl⟩
      · rcases word with rfl | rfl
        · exact ⟨[_, _, _, _], _, none, rfl, .unexpected_any, rfl⟩
        · exact ⟨[_, _, _, _], _, none, rfl, .unexpected_event_any, rfl⟩
      · rcases word with rfl | rfl
        · exact ⟨_, _, _, angle_split, .unexpected spelled apart, rfl⟩
        · exact ⟨_, _, _, angle_split, .unexpected_event spelled apart, rfl⟩
    rcases takes_ite.mp takes with ⟨word, takes⟩ | ⟨_, takes⟩
    · obtain ⟨opens, closes, rfl, rfl⟩ := parse_lifecycle_takes.mp takes
      rcases word with rfl | rfl
      · exact ⟨[_, _, _, _], _, none, rfl, .on_entry, rfl⟩
      · exact ⟨[_, _, _, _], _, none, rfl, .on_exit, rfl⟩
    rcases takes_ite.mp takes with ⟨rfl, takes⟩ | ⟨_, takes⟩
    · rcases parse_origin_takes.mp takes with ⟨opens, closes, rfl, rfl⟩ |
        ⟨opens, closes, name, free, rfl, rfl⟩
      · exact ⟨[_, _, _, _], _, none, rfl, .completion_any, rfl⟩
      · exact ⟨[_, _, _, _], _, none, rfl, .completion free, rfl⟩
    rcases takes_ite.mp takes with ⟨rfl, takes⟩ | ⟨_, takes⟩
    · rcases parse_origin_takes.mp takes with ⟨opens, closes, rfl, rfl⟩ |
        ⟨opens, closes, name, free, rfl, rfl⟩
      · exact ⟨[_, _, _, _], _, none, rfl, .exception_any, rfl⟩
      · exact ⟨[_, _, _, _], _, none, rfl, .exception free, rfl⟩
    · obtain ⟨rfl, rfl⟩ := takes_pure.mp takes
      exact ⟨[_], _, none, rfl, .identifier own, rfl⟩

/-- A trigger that is spelled begins with an identifier, behind which it is read where
nothing goes on with it. -/
theorem trigger_takes {front : TokenStream} {spelling : EventSpelling}
    {explicit : Option (SynType D)}
    (spelled : TriggerTokens syn front spelling explicit) (apart : Apart rest) :
    ∃ name tail, front = .ident name :: tail ∧ is_keyword name = false ∧
      pair_front ':' (tail ++ rest) = none ∧
      (Event.parse_trigger syn name ("identifier:".toList ++ name)).Takes (tail ++ rest)
        (first_event spelling explicit) rest := by
  cases spelled with
  | identifier own =>
    exact ⟨_, [], rfl, own, apart.path,
      (parse_trigger_plain syn apart.angle).mpr ⟨rfl, rfl⟩⟩
  | @event tokens opens closes data_type event_type typed =>
    refine ⟨_, _, rfl, by decide, pair_front_other (by decide),
      (parse_trigger_angle syn rfl).mpr ?_⟩
    exact (parse_external_takes syn).mpr
      ⟨opens, closes, tokens, data_type, event_type, by simp, typed, rfl⟩
  | @unexpected tokens opens closes data_type event_type typed other =>
    refine ⟨_, _, rfl, by decide, pair_front_other (by decide),
      (parse_trigger_angle syn rfl).mpr ?_⟩
    exact (parse_unexpected_takes syn).mpr
      (.inr ⟨opens, closes, tokens, data_type, event_type, by simp, other, typed, rfl⟩)
  | @unexpected_event tokens opens closes data_type event_type typed other =>
    refine ⟨_, _, rfl, by decide, pair_front_other (by decide),
      (parse_trigger_angle syn rfl).mpr ?_⟩
    exact (parse_unexpected_takes syn).mpr
      (.inr ⟨opens, closes, tokens, data_type, event_type, by simp, other, typed, rfl⟩)
  | @unexpected_any opens closes =>
    refine ⟨_, _, rfl, by decide, pair_front_other (by decide),
      (parse_trigger_angle syn rfl).mpr ?_⟩
    exact (parse_unexpected_takes syn).mpr (.inl ⟨opens, closes, rfl, rfl⟩)
  | @unexpected_event_any opens closes =>
    refine ⟨_, _, rfl, by decide, pair_front_other (by decide),
      (parse_trigger_angle syn rfl).mpr ?_⟩
    exact (parse_unexpected_takes syn).mpr (.inl ⟨opens, closes, rfl, rfl⟩)
  | @on_entry opens closes =>
    refine ⟨_, _, rfl, by decide, pair_front_other (by decide),
      (parse_trigger_angle syn rfl).mpr ?_⟩
    exact parse_lifecycle_takes.mpr ⟨opens, closes, rfl, rfl⟩
  | @on_exit opens closes =>
    refine ⟨_, _, rfl, by decide, pair_front_other (by decide),
      (parse_trigger_angle syn rfl).mpr ?_⟩
    exact parse_lifecycle_takes.mpr ⟨opens, closes, rfl, rfl⟩
  | @completion name opens closes own =>
    refine ⟨_, _, rfl, by decide, pair_front_other (by decide),
      (parse_trigger_angle syn rfl).mpr ?_⟩
    exact parse_origin_takes.mpr (.inr ⟨opens, closes, name, own, rfl, rfl⟩)
  | @completion_any opens closes =>
    refine ⟨_, _, rfl, by decide, pair_front_other (by decide),
      (parse_trigger_angle syn rfl).mpr ?_⟩
    exact parse_origin_takes.mpr (.inl ⟨opens, closes, rfl, rfl⟩)
  | @exception name opens closes own =>
    refine ⟨_, _, rfl, by decide, pair_front_other (by decide),
      (parse_trigger_angle syn rfl).mpr ?_⟩
    exact parse_origin_takes.mpr (.inr ⟨opens, closes, name, own, rfl, rfl⟩)
  | @exception_any opens closes =>
    refine ⟨_, _, rfl, by decide, pair_front_other (by decide),
      (parse_trigger_angle syn rfl).mpr ?_⟩
    exact parse_origin_takes.mpr (.inl ⟨opens, closes, rfl, rfl⟩)

end Triggers

section Events

variable {input rest : TokenStream} {spelling : EventSpelling}
  {explicit written : Option (SynType D)} {event : Event D}

/-- What is read replaces the source as the names of events do. -/
theorem with_source_first :
    (first_event spelling explicit).with_source =
      { ident := spelling.parse.ident
        source := spelling.parse.source
        data_type := explicit
        kind := spelling.parse.kind
        wildcard := spelling.parse.wildcard
        external := spelling.parse.external } := by
  cases spelling <;> rfl

/-- An event that is external has an explicit type. -/
theorem TriggerTokens.internal {front : TokenStream}
    (spelled : TriggerTokens syn front spelling none) :
    spelling.parse.external = false := by
  cases spelled <;> rfl

/-- A trigger that is a wildcard gives no type to its event. -/
theorem TriggerTokens.untyped {front : TokenStream}
    (spelled : TriggerTokens syn front spelling explicit)
    (wildcard : spelling.parse.wildcard = true) : explicit = none := by
  cases spelled <;> first | rfl | cases wildcard

theorem inferred_first (external : explicit = none → spelling.parse.external = false) :
    (first_event spelling explicit).with_source.inferred =
      explicit.or
        (if spelling.parse.kind = .exception ∧ spelling.parse.wildcard = false then
          some (.of_ident spelling.parse.ident)
        else none) := by
  rw [with_source_first]
  cases explicit with
  | some => rfl
  | none => simp [Event.inferred, external rfl]

/-- What is read behind a trigger is its data. -/
theorem carried_event_of_takes
    (external : explicit = none → spelling.parse.external = false)
    (takes : (Event.parse_carried syn (first_event spelling explicit).with_source).Takes
      input event rest) :
    ∃ front written, input = front ++ rest ∧ DataTokens syn front written ∧
      (spelling.parse.wildcard = true → written = none) ∧
      event = spelled_event spelling explicit written := by
  unfold Event.parse_carried at takes
  obtain ⟨data, mid, read, further⟩ := takes_bind.mp takes
  obtain ⟨front, written, rfl, carried, rfl⟩ := data_of_takes syn read
  rcases takes_ite.mp further with ⟨_, failed⟩ | ⟨bare, ends⟩
  · exact absurd failed takes_fail
  · obtain ⟨rfl, rfl⟩ := takes_pure.mp ends
    refine ⟨front, written, rfl, carried, fun wildcard => ?_, ?_⟩
    · rw [with_source_first] at bare
      cases written with
      | none => rfl
      | some => simp [wildcard] at bare
    · rw [inferred_first external, with_source_first]
      rfl

/-- The data of a trigger that are spelled are read. -/
theorem carried_event_takes {front : TokenStream}
    (external : explicit = none → spelling.parse.external = false)
    (untyped : spelling.parse.wildcard = true → explicit = none)
    (carried : DataTokens syn front written)
    (bare : spelling.parse.wildcard = true → written = none)
    (ended : group_front .parenthesis rest = none) :
    (Event.parse_carried syn (first_event spelling explicit).with_source).Takes
      (front ++ rest) (spelled_event spelling explicit written) rest := by
  unfold Event.parse_carried
  refine takes_bind.mpr ⟨_, _, data_takes syn carried ended, ?_⟩
  rw [inferred_first external, with_source_first]
  refine takes_ite.mpr (.inr ⟨?_, takes_pure.mpr ⟨rfl, rfl⟩⟩)
  intro both
  obtain ⟨wildcard, carries⟩ := Bool.and_eq_true_iff.mp both
  have wildcard : spelling.parse.wildcard = true := wildcard
  rw [bare wildcard, untyped wildcard, if_neg (by simp [wildcard])] at carries
  cases carries

/-- A literal is none of the words of the triggers. -/
theorem parse_trigger_literal {value source : Text} :
    (Event.parse_trigger syn (state_ident value) source).Takes input event rest ↔
      event =
        { ident := state_ident value
          source := source
          data_type := none
          kind := .normal
          wildcard := false
          external := false } ∧ rest = input := by
  cases angle : (punct_front '<' input).isSome with
  | false =>
    exact parse_trigger_plain syn
      (Option.isNone_iff_eq_none.mp (Option.isSome_eq_false_iff.mp angle))
  | true =>
    rw [parse_trigger_angle syn angle]
    unfold chosen
    rw [if_neg (state_ident_ne rfl), if_neg, if_neg, if_neg (state_ident_ne rfl),
      if_neg (state_ident_ne rfl), takes_pure]
    · intro word
      rcases word with word | word <;> exact absurd word (state_ident_ne rfl)
    · intro word
      rcases word with word | word <;> exact absurd word (state_ident_ne rfl)

/-- What is read as an event is spelled as one. -/
theorem event_of_takes (takes : (Event.parse syn).Takes input event rest) :
    ∃ front spelling, input = front ++ rest ∧ EventTokens syn front spelling event := by
  unfold Event.parse at takes
  obtain ⟨_, mid, plus, further⟩ := takes_bind.mp takes
  obtain ⟨joint, rfl⟩ := punct_front_eq.mp (takes_expect.mp plus)
  obtain ⟨first, behind, named, further'⟩ := takes_bind.mp further
  obtain ⟨last, behind', qualified, further''⟩ := takes_bind.mp further'
  obtain ⟨trigger, after, triggered, carried⟩ := takes_bind.mp further''
  rcases parse_first_takes named with ⟨value, rfl, rfl⟩ | ⟨name, rfl, own, rfl⟩
  · rcases parse_qualified_takes.mp qualified with ⟨same, _⟩ | ⟨_, rfl, rfl⟩
    · exact absurd same (state_ident_ne rfl)
    obtain ⟨rfl, rfl⟩ := (parse_trigger_literal syn).mp triggered
    obtain ⟨front, written, rfl, data, _, rfl⟩ :=
      @carried_event_of_takes _ _ syn _ _ (.literal value) none _ (fun _ => rfl) carried
    exact ⟨_ :: _ :: front, _, rfl, .literal data⟩
  · rcases parse_qualified_takes.mp qualified with
      ⟨same, colon, name', own', rfl, rfl⟩ | ⟨_, rfl, rfl⟩
    · obtain rfl : name = "sml".toList := same
      obtain ⟨front, spelling, explicit, same', spelled, rfl⟩ :=
        trigger_of_takes syn own' triggered
      obtain ⟨back, written, rfl, data, bare, rfl⟩ :=
        carried_event_of_takes syn (fun none => by subst none; exact spelled.internal)
          carried
      refine ⟨.punct '+' joint :: .ident "sml".toList :: .punct ':' true ::
        .punct ':' colon :: (front ++ back), spelling, ?_, .qualified spelled data bare⟩
      rw [List.cons_append, List.cons_append, List.cons_append, List.cons_append,
        List.append_assoc, ← same']
    · obtain ⟨front, spelling, explicit, same', spelled, rfl⟩ :=
        trigger_of_takes syn own triggered
      obtain ⟨back, written, rfl, data, bare, rfl⟩ :=
        carried_event_of_takes syn (fun none => by subst none; exact spelled.internal)
          carried
      refine ⟨.punct '+' joint :: (front ++ back), spelling, ?_,
        .trigger spelled data bare⟩
      rw [List.cons_append, List.append_assoc, ← same']

/-- An event that is spelled is read where nothing goes on with it. -/
theorem event_takes {front : TokenStream} (spelled : EventTokens syn front spelling event)
    (ended : Ended rest) : (Event.parse syn).Takes (front ++ rest) event rest := by
  unfold Event.parse
  cases spelled with
  | @literal value data written joint carried =>
    refine takes_bind.mpr ⟨(), _, takes_expect.mpr punct_front_cons, takes_bind.mpr
      ⟨_, _, parse_first_literal value, takes_bind.mpr
        ⟨(state_ident value, "literal:".toList ++ value), data ++ rest, ?_, takes_bind.mpr
          ⟨_, _, (parse_trigger_literal syn).mpr ⟨rfl, rfl⟩, ?_⟩⟩⟩⟩
    · exact parse_qualified_takes.mpr
        (.inr ⟨fun both => absurd both.1 (state_ident_ne rfl), rfl, rfl⟩)
    · exact @carried_event_takes _ _ syn _ (.literal value) none _ _ (fun _ => rfl)
        (fun _ => rfl) carried nofun ended.group
  | @trigger trigger data spelling explicit written joint spelled carried bare =>
    obtain ⟨name, tail, rfl, own, path, takes⟩ :=
      trigger_takes syn spelled (carried.apart syn ended.toApart)
    rw [List.cons_append, List.append_assoc]
    refine takes_bind.mpr ⟨(), _, takes_expect.mpr punct_front_cons, takes_bind.mpr
      ⟨_, _, parse_first_identifier own, takes_bind.mpr
        ⟨(name, "identifier:".toList ++ name), tail ++ (data ++ rest), ?_, takes_bind.mpr
          ⟨_, _, takes, ?_⟩⟩⟩⟩
    · exact parse_qualified_takes.mpr (.inr ⟨by simp [path], rfl, rfl⟩)
    · exact carried_event_takes syn (fun none => by subst none; exact spelled.internal)
        (spelled.untyped syn) carried bare ended.group
  | @qualified trigger data spelling explicit written joint colon spelled carried bare =>
    obtain ⟨name, tail, rfl, own, path, takes⟩ :=
      trigger_takes syn spelled (carried.apart syn ended.toApart)
    rw [List.cons_append, List.cons_append, List.cons_append, List.cons_append,
      List.append_assoc]
    refine takes_bind.mpr ⟨(), _, takes_expect.mpr punct_front_cons, takes_bind.mpr
      ⟨_, _, parse_first_identifier (by decide), takes_bind.mpr
        ⟨(name, "identifier:".toList ++ name), tail ++ (data ++ rest), ?_, takes_bind.mpr
          ⟨_, _, takes, ?_⟩⟩⟩⟩
    · exact parse_qualified_takes.mpr (.inl ⟨rfl, colon, name, own, rfl, rfl⟩)
    · exact carried_event_takes syn (fun none => by subst none; exact spelled.internal)
        (spelled.untyped syn) carried bare ended.group

end Events

end SmlRs.Macros.Rows
