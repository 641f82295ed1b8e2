/-
Module: SmlRs.Macros.Rows
Purpose: The parser of rows accepts exactly the token trees that the grammar derives,
  and the names of a row are those that the checks of names are made on.
Trusted boundary: none
Main exports: sources_of_takes, sources_take, parse_row_iff, StateTransitions.names,
  rows_parsed_iff
-/
import SmlRs.Macros.RowActions
import SmlRs.Macros.RowTriggers

namespace SmlRs.Macros.Rows

open Lib Names Parse

variable {D X : Type} (syn : Syn D X)

/-! ### Sources -/

section Sources

variable {input rest : TokenStream} {states : List (InputState D)}

theorem nestings_append (front back : TokenStream) :
    TokenTree.nesting.nestings (front ++ back) =
      max (TokenTree.nesting.nestings front) (TokenTree.nesting.nestings back) := by
  induction front with
  | nil => exact (Nat.zero_max _).symm
  | cons token more ih =>
    rw [List.cons_append, TokenTree.nesting.nestings, ih, TokenTree.nesting.nestings,
      Nat.max_assoc]

/-- What is read as the sources of a row is spelled so. The induction is on the turns
of the loop. -/
theorem sources_of_takes {fuel : Nat}
    (takes : (StateTransitions.parse_in_states syn fuel).Takes input states rest) :
    ∃ front, input = front ++ rest ∧ SourcesTokens syn front states := by
  induction fuel generalizing input states with
  | zero => exact absurd takes takes_fail
  | succ fuel ih =>
    unfold StateTransitions.parse_in_states at takes
    obtain ⟨depth, mid, looked, further⟩ := takes_bind.mp takes
    obtain ⟨rfl, rfl⟩ := takes_look.mp looked
    obtain ⟨state, behind, read, further'⟩ := takes_bind.mp further
    obtain ⟨front, rfl, spelled⟩ := input_of_takes syn read
    obtain ⟨more, mid', bar, further''⟩ := takes_bind.mp further'
    rcases takes_ite.mp further'' with ⟨rfl, again⟩ | ⟨last, ends⟩
    · obtain ⟨others, behind', read', ends⟩ := takes_bind.mp again
      obtain ⟨rfl, rfl⟩ := takes_pure.mp ends
      obtain ⟨back, rfl, spelled'⟩ := ih read'
      rcases takes_accept.mp bar with ⟨_, _, found⟩ | ⟨missing, _⟩
      · obtain ⟨joint, rfl⟩ := punct_front_eq.mp found
        exact ⟨front ++ .punct '|' joint :: back, by simp, .more spelled spelled'⟩
      · cases missing
    · obtain ⟨rfl, rfl⟩ := takes_pure.mp ends
      rcases takes_accept.mp bar with ⟨rfl, _⟩ | ⟨_, _, rfl⟩
      · exact absurd rfl last
      · exact ⟨front, rfl, .last spelled⟩

theorem sources_length {front : TokenStream} (spelled : SourcesTokens syn front states) :
    states.length ≤ front.length + 1 := by
  induction spelled with
  | last => exact Nat.succ_le_succ (Nat.zero_le _)
  | more first further ih =>
    simp only [List.length_cons, List.length_append]
    omega

/-- Sources that are spelled are read, in as many turns as there are sources. -/
theorem sources_take {front : TokenStream} (spelled : SourcesTokens syn front states)
    {fuel : Nat} (enough : states.length ≤ fuel) (ended : Ended rest)
    (bar : punct_front '|' rest = none) :
    (StateTransitions.parse_in_states syn fuel).Takes (front ++ rest) states rest := by
  induction spelled generalizing fuel with
  | @last tokens state only =>
    cases fuel with
    | zero => cases enough
    | succ fuel =>
      have deep : TokenTree.nesting.nestings tokens <
          TokenTree.nesting.nestings (tokens ++ rest) + 1 := by
        rw [nestings_append]
        exact Nat.lt_succ_of_le (Nat.le_max_left _ _)
      unfold StateTransitions.parse_in_states
      exact takes_bind.mpr ⟨_, _, takes_look.mpr ⟨rfl, rfl⟩, takes_bind.mpr
        ⟨state, rest, input_takes syn only deep ended, takes_bind.mpr
          ⟨false, rest, takes_accept.mpr (.inr ⟨rfl, bar, rfl⟩),
            takes_ite.mpr (.inr ⟨Bool.false_ne_true, takes_pure.mpr ⟨rfl, rfl⟩⟩)⟩⟩⟩
  | @more tokens back state states joint first further ih =>
    cases fuel with
    | zero => cases enough
    | succ fuel =>
      rw [List.append_assoc, List.cons_append]
      have deep : TokenTree.nesting.nestings tokens <
          TokenTree.nesting.nestings (tokens ++ .punct '|' joint :: (back ++ rest)) + 1 := by
        rw [nestings_append]
        exact Nat.lt_succ_of_le (Nat.le_max_left _ _)
      unfold StateTransitions.parse_in_states
      exact takes_bind.mpr ⟨_, _, takes_look.mpr ⟨rfl, rfl⟩, takes_bind.mpr
        ⟨state, _, input_takes syn first deep (ended_punct (by decide) (by decide)),
          takes_bind.mpr ⟨true, back ++ rest,
            takes_accept.mpr (.inl ⟨rfl, (), punct_front_cons⟩), takes_ite.mpr
              (.inl ⟨rfl, takes_bind.mpr ⟨states, rest,
                ih (Nat.le_of_succ_le_succ enough), takes_pure.mpr ⟨rfl, rfl⟩⟩⟩)⟩⟩⟩

end Sources

/-! ### Rows -/

section Rows

variable {tokens : TokenStream} {row : StateTransitions D X}

/-- The check of the wildcards of a row. -/
theorem alone_iff {states : List (InputState D)} :
    ¬ (1 < states.length ∧ states.any (·.wildcard) = true) ↔
      (1 < states.length → ∀ state ∈ states, state.wildcard = false) := by
  simp

/-- What stands behind the trigger of a row does not go on with it. -/
theorem ended_behind {condition actions target : TokenStream}
    {guard : Option (GuardExpression (AsyncIdent Text))} {items : List (ActionItem X)}
    {out_state : OutputState D} (guarded : GuardTokens condition guard)
    (acted : ActionTokens syn actions items) (reached : OutputTokens syn target out_state) :
    Ended (condition ++ (actions ++ target)) := by
  cases guarded with
  | some => exact ended_bracket
  | none =>
    cases acted with
    | single => exact ended_punct (by decide) (by decide)
    | sequence => exact ended_punct (by decide) (by decide)
    | none =>
      cases reached with
      | implicit => exact ended_nil
      | underscore => exact ended_punct (by decide) (by decide)
      | named => exact ended_punct (by decide) (by decide)

theorem row_of_takes (takes : (StateTransitions.parse syn).Takes tokens row []) :
    RowTokens syn tokens row := by
  unfold StateTransitions.parse at takes
  obtain ⟨fuel, mid, looked, further⟩ := takes_bind.mp takes
  obtain ⟨rfl, rfl⟩ := takes_look.mp looked
  obtain ⟨in_states, behind, sources, checked⟩ := takes_bind.mp further
  rcases takes_ite.mp checked with ⟨_, failed⟩ | ⟨alone, further⟩
  · exact absurd failed takes_fail
  obtain ⟨event, triggered_by, trigger, further⟩ := takes_bind.mp further
  obtain ⟨guard, conditioned, condition, further⟩ := takes_bind.mp further
  obtain ⟨sequence, last, actions, further⟩ := takes_bind.mp further
  obtain ⟨out_state, after, target, ends⟩ := takes_bind.mp further
  obtain ⟨rfl, same⟩ := takes_pure.mp ends
  obtain rfl := same.symm
  obtain ⟨sourced, rfl, from_states⟩ := sources_of_takes syn sources
  obtain ⟨triggering, spelling, rfl, triggered⟩ := event_of_takes syn trigger
  obtain ⟨conditional, rfl, guarded⟩ := condition_of_takes condition
  obtain ⟨played, items, position, rfl, acted, rfl⟩ :=
    ActionSequence.actions_of_takes syn actions
  obtain ⟨back, rfl, reached⟩ := output_of_takes syn target
  rw [List.append_nil]
  rw [Bool.and_eq_true, decide_eq_true_eq, alone_iff] at alone
  exact .row from_states alone triggered guarded acted reached

theorem takes_row (spelled : RowTokens syn tokens row) :
    (StateTransitions.parse syn).Takes tokens row [] := by
  cases spelled with
  | @row sources trigger condition actions target in_states spelling event guard items
      out_state from_states alone triggered guarded acted reached =>
    have ended := ended_behind syn guarded acted reached
    have started : ∃ joint more, trigger = .punct '+' joint :: more := by
      cases triggered <;> exact ⟨_, _, rfl⟩
    have bracket : group_front .bracket (actions ++ target) = none := by
      cases acted with
      | none => cases reached <;> rfl
      | single => rfl
      | sequence => rfl
    have slash : punct_front '/' target = none := by
      cases reached with
      | implicit => rfl
      | underscore => exact punct_front_other (by decide)
      | named => exact punct_front_other (by decide)
    have parenthesis : group_front .parenthesis target = none := by
      cases reached <;> rfl
    obtain ⟨position, acts⟩ := ActionSequence.actions_take syn acted slash parenthesis
    obtain ⟨joint, more, rfl⟩ := started
    have enough : in_states.length ≤
        (sources ++ (.punct '+' joint :: more ++ (condition ++ (actions ++ target)))).length +
          1 := by
      have bound := sources_length syn from_states
      simp only [List.length_append]
      omega
    unfold StateTransitions.parse
    refine takes_bind.mpr ⟨_, _, takes_look.mpr ⟨rfl, rfl⟩, takes_bind.mpr
      ⟨in_states, _, sources_take syn from_states enough
        (ended_punct (by decide) (by decide)) (punct_front_other (by decide)),
        takes_ite.mpr
          (.inr ⟨?_, takes_bind.mpr ⟨event, _, event_takes syn triggered ended,
            takes_bind.mpr ⟨guard, _, condition_takes guarded bracket, takes_bind.mpr
              ⟨_, _, acts, takes_bind.mpr ⟨out_state, [], output_takes syn reached,
                takes_pure.mpr ⟨rfl, rfl⟩⟩⟩⟩⟩⟩)⟩⟩
    rw [Bool.and_eq_true, decide_eq_true_eq, alone_iff]
    exact alone

/-- The parser accepts a row exactly where the grammar derives it. -/
theorem parse_row_iff :
    parse_row syn tokens = .ok row ↔ RowTokens syn tokens row := by
  unfold parse_row
  rw [whole_eq_ok]
  exact ⟨row_of_takes syn, takes_row syn⟩

end Rows

/-! ### Names -/

/-- The names of a row, as the checks of names are given them. -/
def StateTransitions.names (row : StateTransitions D X) : List Names.StateTransition :=
  row.in_states.map fun in_state =>
    { in_state :=
        { ident := in_state.ident
          source := in_state.source
          wildcard := in_state.wildcard }
      event :=
        { ident := row.event.ident
          source := row.event.source
          kind := row.event.kind
          wildcard := row.event.wildcard
          external := row.event.external }
      out_state :=
        { ident := row.out_state.ident
          source := row.out_state.source
          internal_transition := row.out_state.internal_transition } }

section Names

variable {tokens : TokenStream}

/-- The names of a source are those of a source that is spelled. -/
theorem InputTokens.spelled {state : InputState D}
    (input : InputTokens syn tokens state) :
    ∃ spelling : InputSpelling,
      spelling.parse =
        { ident := state.ident, source := state.source, wildcard := state.wildcard } := by
  induction input with
  | wildcard => exact ⟨.wildcard, rfl⟩
  | @named _ _ spelling _ _ _ => exact ⟨.named spelling, rfl⟩
  | group _ _ ih => exact ih
  | start _ _ _ ih => exact ih

theorem SourcesTokens.spelled {states : List (InputState D)}
    (sources : SourcesTokens syn tokens states) :
    ∃ spellings : List InputSpelling, spellings ≠ [] ∧
      spellings.map (·.parse) =
        states.map fun state =>
          { ident := state.ident, source := state.source, wildcard := state.wildcard } := by
  induction sources with
  | last only =>
    obtain ⟨spelling, same⟩ := only.spelled
    exact ⟨[spelling], List.cons_ne_nil _ _, congrArg (fun state => [state]) same⟩
  | more first further ih =>
    obtain ⟨spelling, same⟩ := first.spelled
    obtain ⟨spellings, _, same'⟩ := ih
    refine ⟨spelling :: spellings, List.cons_ne_nil _ _, ?_⟩
    rw [List.map_cons, List.map_cons, same, same']

theorem OutputTokens.spelled {state : OutputState D}
    (output : OutputTokens syn tokens state) :
    ∃ spelling : OutputSpelling,
      spelling.parse =
        { ident := state.ident
          source := state.source
          internal_transition := state.internal_transition } := by
  cases output with
  | implicit => exact ⟨.implicit, rfl⟩
  | underscore => exact ⟨.underscore, rfl⟩
  | @named _ _ spelling _ _ _ _ => exact ⟨.named spelling, rfl⟩

theorem EventTokens.spelled {spelling : EventSpelling} {event : Event D}
    (spelled : EventTokens syn tokens spelling event) :
    spelling.parse =
      { ident := event.ident
        source := event.source
        kind := event.kind
        wildcard := event.wildcard
        external := event.external } := by
  cases spelled <;> rfl

/-- The names of a row are those of a row that is spelled. -/
theorem RowTokens.spelled {row : StateTransitions D X} (formed : RowTokens syn tokens row) :
    ∃ spelled : SpelledRow, row.names = spelled.transitions := by
  cases formed with
  | @row _ _ _ _ _ in_states spelling event guard items out_state from_states _ triggered _ _
      reached =>
    obtain ⟨spellings, some, sources⟩ := from_states.spelled
    obtain ⟨target, output⟩ := reached.spelled
    cases spellings with
    | nil => exact absurd rfl some
    | cons source others =>
      refine ⟨{ source := source, others := others, event := spelling, target := target }, ?_⟩
      unfold SpelledRow.transitions SpelledRow.in_states SpelledRow.transition
      dsimp only
      rw [output, triggered.spelled]
      have mapped := congrArg (List.map fun in_state : Names.InputState =>
        ({ in_state := in_state
           event :=
             { ident := event.ident
               source := event.source
               kind := event.kind
               wildcard := event.wildcard
               external := event.external }
           out_state :=
             { ident := out_state.ident
               source := out_state.source
               internal_transition := out_state.internal_transition } } :
          Names.StateTransition)) sources
      rw [List.map_map, List.map_map] at mapped
      exact mapped.symm

end Names

/-- The parser of rows accepts a row exactly where the grammar derives it, with the
same parts, and its names are those of a row as it is spelled. -/
theorem rows_parsed_iff (tokens : TokenStream) (row : StateTransitions D X) :
    (parse_row syn tokens = .ok row ↔ RowTokens syn tokens row) ∧
      (parse_row syn tokens = .ok row →
        ∃ spelled : SpelledRow, row.names = spelled.transitions) := by
  constructor
  · exact parse_row_iff syn
  · intro parsed
    exact ((parse_row_iff syn).mp parsed).spelled

/-- Types that are identifiers, and expressions that are. -/
def ident_syn : Syn Unit Text where
  parse_type := do
    let ident ← expect ident_front .expected
    pure (.of_ident ident)
  parse_expr := expect ident_front .expected
  type_front := by
    intro input data_type rest takes
    obtain ⟨ident, mid, found, ends⟩ := takes_bind.mp takes
    obtain ⟨_, rfl⟩ := takes_pure.mp ends
    exact ⟨[.ident ident], (ident_front_eq.mp (takes_expect.mp found)).1⟩
  type_closed := by
    intro front rest more joint data_type takes
    obtain ⟨ident, mid, found, ends⟩ := takes_bind.mp takes
    obtain ⟨rfl, same⟩ := takes_pure.mp ends
    obtain ⟨formed, own⟩ := ident_front_eq.mp (takes_expect.mp found)
    rw [← same] at formed
    obtain rfl : front = [.ident ident] :=
      List.append_cancel_right (formed.trans List.singleton_append.symm)
    exact takes_bind.mpr ⟨ident, _, takes_expect.mpr (ident_front_cons own),
      takes_pure.mpr ⟨rfl, rfl⟩⟩

/-- `*(idle) | state<Child> + sml::event<Start>[!busy] / (first, defer,) = "on air"_s` -/
def start_tokens : TokenStream :=
  [.punct '*' false, .group .parenthesis [.ident "idle".toList], .punct '|' false,
    .ident "state".toList, .punct '<' false, .ident "Child".toList, .punct '>' false,
    .punct '+' false, .ident "sml".toList, .punct ':' true, .punct ':' false,
    .ident "event".toList, .punct '<' false, .ident "Start".toList, .punct '>' false,
    .group .bracket [.punct '!' false, .ident "busy".toList], .punct '/' false,
    .group .parenthesis
      [.ident "first".toList, .punct ',' false, .ident "defer".toList, .punct ',' false],
    .punct '=' false, .string "on air".toList "_s".toList]

theorem rows_parsed_iff_start :
    ∃ row, parse_row ident_syn start_tokens = .ok row := by
  have idle : InputTokens ident_syn
      [.punct '*' false, .group .parenthesis [.ident "idle".toList]]
      { named_input (.identifier "idle".toList) none with start := true } :=
    .start (.group (.named (.identifier (by decide)) .none) rfl) rfl (by simp)
  have child : InputTokens ident_syn
      [.ident "state".toList, .punct '<' false, .ident "Child".toList, .punct '>' false]
      (named_input (.composite "Child".toList) none) :=
    .named (.composite (by decide)) .none
  have start : EventTypeTokens ident_syn [.ident "Start".toList] false
      (.of_ident "Start".toList) (.path [] "Start".toList []) :=
    ⟨takes_bind.mpr ⟨_, _, takes_expect.mpr (ident_front_cons (by decide)),
      takes_pure.mpr ⟨rfl, rfl⟩⟩, rfl⟩
  have trigger : EventTokens ident_syn
      [.punct '+' false, .ident "sml".toList, .punct ':' true, .punct ':' false,
        .ident "event".toList, .punct '<' false, .ident "Start".toList, .punct '>' false]
      (.event (.path [] "Start".toList []))
      (spelled_event (.event (.path [] "Start".toList []))
        (some (.of_ident "Start".toList)) none) :=
    .qualified (.event start) .none nofun
  have busy : parse_guard (lex [.punct '!' false, .ident "busy".toList]) =
      some (.not (.guard ⟨"busy".toList, false⟩)) := by
    rw [lex_bang, lex_ident (by decide), lex_eq_nil.mpr rfl]
    rfl
  have items : ItemsTokens ident_syn
      [.ident "first".toList, .punct ',' false, .ident "defer".toList, .punct ',' false]
      [.action ⟨"first".toList, false⟩, .defer] :=
    .more (.single (.action (.plain (by decide)) (by decide)))
      (.more (.single .defer) .nil)
  have actions := @ActionTokens.sequence _ _ ident_syn _ _ false items
  have target := @OutputTokens.named _ _ ident_syn _ _ _ _ false
    (.literal "on air".toList "_s".toList) .none
  have formed := RowTokens.row (@SourcesTokens.more _ _ _ _ _ _ _ false idle (.last child))
    (by simp [named_input]) trigger (.some busy) actions target
  exact ⟨_, (rows_parsed_iff ident_syn start_tokens _).1.mpr formed⟩

end SmlRs.Macros.Rows
