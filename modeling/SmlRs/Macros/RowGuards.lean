/-
Module: SmlRs.Macros.RowGuards
Purpose: The parser of guards on token trees accepts what the parser on the tokens of
  guards accepts, with the same result.
Trusted boundary: none
Main exports: lex, Follows, parse_or_follows, guard_takes_iff
-/
import SmlRs.Macros.RowGrammar

namespace SmlRs.Macros.Rows

open Lib Names Parse

/-! ### The tokens of guards -/

section Lex

variable {input rest : TokenStream} {more : List (GuardToken Text)}

theorem lex_async : lex (.ident "async".toList :: rest) = .async :: lex rest := by
  rw [lex]
  exact if_pos rfl

theorem lex_ident {name : Text} (own : is_keyword name = false) :
    lex (.ident name :: rest) = .ident name :: lex rest := by
  rw [lex, if_neg, if_neg (by simp [own])]
  intro same
  subst same
  exact absurd own (by decide)

theorem lex_bang {joint : Bool} : lex (.punct '!' joint :: rest) = .bang :: lex rest := by
  rw [lex]

theorem lex_and {joint : Bool} :
    lex (.punct '&' true :: .punct '&' joint :: rest) = .andAnd :: lex rest := by
  rw [lex]

theorem lex_or {joint : Bool} :
    lex (.punct '|' true :: .punct '|' joint :: rest) = .orOr :: lex rest := by
  rw [lex]

theorem lex_group {stream : TokenStream} :
    lex (.group .parenthesis stream :: rest) = .group (lex stream) :: lex rest := by
  rw [lex]

/-- What stands ahead, as the tokens of guards have it. -/
inductive Ahead : TokenStream → List (GuardToken Text) → Prop where
  | nil : Ahead [] []
  | async {rest : TokenStream} :
      Ahead (.ident "async".toList :: rest) (.async :: lex rest)
  | ident {name : Text} {rest : TokenStream} (own : is_keyword name = false) :
      Ahead (.ident name :: rest) (.ident name :: lex rest)
  | bang {joint : Bool} {rest : TokenStream} :
      Ahead (.punct '!' joint :: rest) (.bang :: lex rest)
  | and {joint : Bool} {rest : TokenStream} :
      Ahead (.punct '&' true :: .punct '&' joint :: rest) (.andAnd :: lex rest)
  | or {joint : Bool} {rest : TokenStream} :
      Ahead (.punct '|' true :: .punct '|' joint :: rest) (.orOr :: lex rest)
  | group {stream rest : TokenStream} :
      Ahead (.group .parenthesis stream :: rest) (.group (lex stream) :: lex rest)
  | stuck {input : TokenStream} (more : input ≠ [])
      (ident : ident_front input = none) (async : word_front "async".toList input = none)
      (bang : punct_front '!' input = none) (and : pair_front '&' input = none)
      (or : pair_front '|' input = none)
      (group : group_front .parenthesis input = none) : Ahead input [.bang]

theorem ahead (input : TokenStream) : Ahead input (lex input) := by
  unfold lex
  split
  · rename_i name rest
    split
    · rename_i same
      subst same
      exact .async
    · rename_i other
      split
      · rename_i keyword
        have ident : ident_front (.ident name :: rest) = none := if_pos keyword
        exact .stuck (List.cons_ne_nil _ _) ident (word_front_other other) rfl rfl rfl rfl
      · rename_i own
        exact .ident (Bool.not_eq_true _ ▸ own)
  · exact .bang
  · exact .and
  · exact .or
  · exact .group
  · exact .nil
  · rename_i other bang and or group more
    apply Ahead.stuck more
    · cases found : ident_front input with
      | none => rfl
      | some both => exact absurd (ident_front_eq.mp found).1 (other _ _)
    · cases found : word_front "async".toList input with
      | none => rfl
      | some both => exact absurd (word_front_eq.mp found) (other _ _)
    · cases found : punct_front '!' input with
      | none => rfl
      | some both =>
        obtain ⟨joint, same⟩ := punct_front_eq.mp found
        exact absurd same (bang _ _)
    · cases found : pair_front '&' input with
      | none => rfl
      | some both =>
        obtain ⟨joint, same⟩ := pair_front_eq.mp found
        exact absurd same (and _ _)
    · cases found : pair_front '|' input with
      | none => rfl
      | some both =>
        obtain ⟨joint, same⟩ := pair_front_eq.mp found
        exact absurd same (or _ _)
    · cases found : group_front .parenthesis input with
      | none => rfl
      | some both => exact absurd (group_front_eq.mp found) (group _ _)

theorem lex_eq_nil : lex input = [] ↔ input = [] := by
  constructor
  · intro empty
    have formed := ahead input
    rw [empty] at formed
    cases formed
    rfl
  · intro empty
    subst empty
    rw [lex]

theorem length_lex (input : TokenStream) : (lex input).length ≤ input.length := by
  fun_induction lex input with
  | case1 rest ih => exact Nat.succ_le_succ ih
  | case2 => exact Nat.succ_le_succ (Nat.zero_le _)
  | case3 name rest other own ih => exact Nat.succ_le_succ ih
  | case4 joint rest ih => exact Nat.succ_le_succ ih
  | case5 joint rest ih => exact Nat.succ_le_succ (Nat.le_succ_of_le ih)
  | case6 joint rest ih => exact Nat.succ_le_succ (Nat.le_succ_of_le ih)
  | case7 stream rest inner ih => exact Nat.succ_le_succ ih
  | case8 => exact Nat.le_refl _
  | case9 input _ _ _ _ _ more =>
    cases input with
    | nil => exact absurd rfl more
    | cons => exact Nat.succ_le_succ (Nat.zero_le _)

/-- No group is nested deeper than it is written. -/
theorem nestings_lex (input : TokenStream) :
    GuardToken.nesting.nestings (lex input) ≤ TokenTree.nesting.nestings input := by
  fun_induction lex input with
  | case7 stream rest inner ih =>
    simp only [GuardToken.nesting.nestings, GuardToken.nesting,
      TokenTree.nesting.nestings, TokenTree.nesting]
    omega
  | case8 => exact Nat.le_refl _
  | _ =>
    simp_all [GuardToken.nesting.nestings, GuardToken.nesting, TokenTree.nesting.nestings,
      TokenTree.nesting]

theorem lex_eq_group {tokens : List (GuardToken Text)} :
    lex input = .group tokens :: more ↔
      ∃ stream rest, input = .group .parenthesis stream :: rest ∧ tokens = lex stream ∧
        more = lex rest := by
  constructor
  · intro same
    have formed := ahead input
    rw [same] at formed
    cases formed with
    | @group stream rest => exact ⟨stream, rest, rfl, rfl, rfl⟩
  · intro formed
    obtain ⟨stream, rest, rfl, rfl, rfl⟩ := formed
    exact lex_group

theorem lex_eq_async :
    lex input = .async :: more ↔
      ∃ rest, input = .ident "async".toList :: rest ∧ more = lex rest := by
  constructor
  · intro same
    have formed := ahead input
    rw [same] at formed
    cases formed with
    | @async rest => exact ⟨rest, rfl, rfl⟩
  · intro formed
    obtain ⟨rest, rfl, rfl⟩ := formed
    exact lex_async

theorem lex_eq_ident {name : Text} :
    lex input = .ident name :: more ↔
      ∃ rest, input = .ident name :: rest ∧ is_keyword name = false ∧ more = lex rest := by
  constructor
  · intro same
    have formed := ahead input
    rw [same] at formed
    cases formed with
    | @ident _ rest own => exact ⟨rest, rfl, own, rfl⟩
  · intro formed
    obtain ⟨rest, rfl, own, rfl⟩ := formed
    exact lex_ident own

end Lex

/-! ### The parsers follow each other -/

/-- A parser on token trees takes what a parser on the tokens of guards accepts. -/
def Follows (parse : Parser (GuardExpression (AsyncIdent Text)))
    (accepts : List (GuardToken Text) → Accepted Text) : Prop :=
  ∀ {input guard more}, accepts (lex input) = some (guard, more) ↔
    ∃ rest, parse.Takes input guard rest ∧ more = lex rest

namespace GuardExpression

variable {content : Parser (GuardExpression (AsyncIdent Text))}
  {accepts : List (GuardToken Text) → Accepted Text} {input rest : TokenStream}
  {tokens more : List (GuardToken Text)}
  {guard left : GuardExpression (AsyncIdent Text)}

theorem accepted_primary :
    GuardToken.parse_primary accepts tokens = some (guard, more) ↔
      (∃ stream inner, tokens = .group stream :: more ∧
        accepts stream = some (inner, []) ∧ guard = .group inner) ∨
      (∃ name, tokens = .async :: .ident name :: more ∧ guard = .guard ⟨name, true⟩) ∨
      ∃ name, tokens = .ident name :: more ∧ guard = .guard ⟨name, false⟩ := by
  constructor
  · intro accepted
    unfold GuardToken.parse_primary at accepted
    split at accepted
    · rename_i stream behind
      split at accepted
      · rename_i inner found
        cases accepted
        exact .inl ⟨stream, inner, rfl, found, rfl⟩
      · cases accepted
    · cases accepted
      exact .inr (.inl ⟨_, rfl, rfl⟩)
    · cases accepted
      exact .inr (.inr ⟨_, rfl, rfl⟩)
    · cases accepted
  · intro formed
    rcases formed with ⟨stream, inner, rfl, found, rfl⟩ | ⟨name, rfl, rfl⟩ |
      ⟨name, rfl, rfl⟩
    · simp [GuardToken.parse_primary, found]
    · rfl
    · rfl

theorem primary_takes :
    (parse_primary content).Takes input guard rest ↔
      (∃ stream inner, input = .group .parenthesis stream :: rest ∧
        content.Takes stream inner [] ∧ guard = .group inner) ∨
      (∃ name, is_keyword name = false ∧
        input = .ident "async".toList :: .ident name :: rest ∧
        guard = .guard ⟨name, true⟩) ∨
      ∃ name, is_keyword name = false ∧ input = .ident name :: rest ∧
        guard = .guard ⟨name, false⟩ := by
  unfold parse_primary
  rw [takes_peek_bind, takes_ite]
  constructor
  · intro takes
    rcases takes with ⟨_, takes⟩ | ⟨_, takes⟩
    · left
      obtain ⟨inner, mid, read, ends⟩ := takes_bind.mp takes
      obtain ⟨rfl, rfl⟩ := takes_pure.mp ends
      obtain ⟨stream, found, inside⟩ := takes_within.mp read
      exact ⟨stream, inner, group_front_eq.mp found, inside, rfl⟩
    · right
      rw [takes_peek_bind, takes_ite] at takes
      rcases takes with ⟨_, takes⟩ | ⟨_, takes⟩
      · left
        obtain ⟨_, mid, word, further⟩ := takes_bind.mp takes
        obtain ⟨name, behind, found, ends⟩ := takes_bind.mp further
        obtain ⟨rfl, rfl⟩ := takes_pure.mp ends
        obtain ⟨rfl, own⟩ := ident_front_eq.mp (takes_expect.mp found)
        exact ⟨name, own, word_front_eq.mp (takes_expect.mp word), rfl⟩
      · right
        obtain ⟨name, behind, found, ends⟩ := takes_bind.mp takes
        obtain ⟨rfl, rfl⟩ := takes_pure.mp ends
        obtain ⟨rfl, own⟩ := ident_front_eq.mp (takes_expect.mp found)
        exact ⟨name, own, rfl, rfl⟩
  · intro formed
    rcases formed with ⟨stream, inner, rfl, inside, rfl⟩ | formed
    · exact .inl ⟨rfl, takes_bind.mpr ⟨inner, rest,
        takes_within.mpr ⟨stream, group_front_cons, inside⟩, takes_pure.mpr ⟨rfl, rfl⟩⟩⟩
    · right
      rw [takes_peek_bind, takes_ite]
      rcases formed with ⟨name, own, rfl, rfl⟩ | ⟨name, own, rfl, rfl⟩
      · exact ⟨Bool.false_ne_true, .inl ⟨isSome_of_front word_front_cons, takes_bind.mpr
          ⟨(), _, takes_expect.mpr word_front_cons, takes_bind.mpr
            ⟨name, rest, takes_expect.mpr (ident_front_cons own),
              takes_pure.mpr ⟨rfl, rfl⟩⟩⟩⟩⟩
      · have other : name ≠ "async".toList := by
          intro same
          subst same
          exact absurd own (by decide)
        rw [word_front_other other]
        exact ⟨Bool.false_ne_true, .inr ⟨Bool.false_ne_true, takes_bind.mpr
          ⟨name, rest, takes_expect.mpr (ident_front_cons own),
            takes_pure.mpr ⟨rfl, rfl⟩⟩⟩⟩

theorem primary_follows (follows : Follows content accepts) :
    Follows (parse_primary content) (GuardToken.parse_primary accepts) := by
  intro input guard more
  rw [accepted_primary]
  constructor
  · intro accepted
    rcases accepted with ⟨stream, inner, same, inside, rfl⟩ | ⟨name, same, rfl⟩ |
      ⟨name, same, rfl⟩
    · obtain ⟨content, rest, rfl, rfl, rfl⟩ := lex_eq_group.mp same
      obtain ⟨left, takes, empty⟩ := follows.mp inside
      obtain rfl := lex_eq_nil.mp empty.symm
      exact ⟨rest, primary_takes.mpr (.inl ⟨content, inner, rfl, takes, rfl⟩), rfl⟩
    · obtain ⟨rest, rfl, same'⟩ := lex_eq_async.mp same
      obtain ⟨rest', rfl, own, rfl⟩ := lex_eq_ident.mp same'.symm
      exact ⟨rest', primary_takes.mpr (.inr (.inl ⟨name, own, rfl, rfl⟩)), rfl⟩
    · obtain ⟨rest, rfl, own, rfl⟩ := lex_eq_ident.mp same
      exact ⟨rest, primary_takes.mpr (.inr (.inr ⟨name, own, rfl, rfl⟩)), rfl⟩
  · intro taken
    obtain ⟨rest, takes, rfl⟩ := taken
    rcases primary_takes.mp takes with ⟨stream, inner, rfl, inside, rfl⟩ |
      ⟨name, own, rfl, rfl⟩ | ⟨name, own, rfl, rfl⟩
    · have inside' := follows.mpr ⟨[], inside, (lex_eq_nil.mpr rfl).symm⟩
      exact .inl ⟨lex stream, inner, lex_group, inside', rfl⟩
    · exact .inr (.inl ⟨name, by rw [lex_async, lex_ident own], rfl⟩)
    · exact .inr (.inr ⟨name, lex_ident own, rfl⟩)

theorem not_takes_bang {joint : Bool} :
    (parse_not content).Takes (.punct '!' joint :: input) guard rest ↔
      ∃ inner, (parse_primary content).Takes input inner rest ∧ guard = .not inner := by
  unfold parse_not
  rw [takes_peek_bind, takes_ite, punct_front_cons]
  constructor
  · intro takes
    rcases takes with ⟨_, takes⟩ | ⟨other, _⟩
    · obtain ⟨_, mid, bang, further⟩ := takes_bind.mp takes
      obtain ⟨inner, behind, read, ends⟩ := takes_bind.mp further
      obtain ⟨rfl, rfl⟩ := takes_pure.mp ends
      obtain ⟨_, same⟩ := punct_front_eq.mp (takes_expect.mp bang)
      cases same
      exact ⟨inner, read, rfl⟩
    · exact absurd rfl other
  · intro formed
    obtain ⟨inner, read, rfl⟩ := formed
    exact .inl ⟨rfl, takes_bind.mpr ⟨(), input, takes_expect.mpr punct_front_cons,
      takes_bind.mpr ⟨inner, rest, read, takes_pure.mpr ⟨rfl, rfl⟩⟩⟩⟩

theorem not_takes_plain (plain : punct_front '!' input = none) :
    (parse_not content).Takes input guard rest ↔
      (parse_primary content).Takes input guard rest := by
  unfold parse_not
  rw [takes_peek_bind, takes_ite, plain]
  constructor
  · intro takes
    rcases takes with ⟨found, _⟩ | ⟨_, takes⟩
    · cases found
    · exact takes
  · intro takes
    exact .inr ⟨Bool.false_ne_true, takes⟩

theorem not_follows (follows : Follows content accepts) :
    Follows (parse_not content) (GuardToken.parse_not accepts) := by
  intro input guard more
  have primary : Follows (parse_primary content) (GuardToken.parse_primary accepts) :=
    primary_follows follows
  have plain (apart : punct_front '!' input = none)
      (same : GuardToken.parse_not accepts (lex input) =
        GuardToken.parse_primary accepts (lex input)) :
      GuardToken.parse_not accepts (lex input) = some (guard, more) ↔
        ∃ rest, (parse_not content).Takes input guard rest ∧ more = lex rest := by
    rw [same, primary]
    apply exists_congr
    intro rest
    rw [not_takes_plain apart]
  have formed := ahead input
  generalize lexed : lex input = tokens at formed
  cases formed with
  | nil => exact lexed ▸ plain rfl (by rw [lexed]; rfl)
  | async => exact lexed ▸ plain rfl (by rw [lexed]; rfl)
  | ident own => exact lexed ▸ plain rfl (by rw [lexed]; rfl)
  | @bang joint rest =>
    constructor
    · intro accepted
      obtain ⟨⟨inner, behind⟩, found, same⟩ := Option.map_eq_some_iff.mp accepted
      cases same
      obtain ⟨left, takes, same⟩ := primary.mp found
      exact ⟨left, not_takes_bang.mpr ⟨inner, takes, rfl⟩, same⟩
    · intro taken
      obtain ⟨left, takes, rfl⟩ := taken
      obtain ⟨inner, read, rfl⟩ := not_takes_bang.mp takes
      exact Option.map_eq_some_iff.mpr ⟨(inner, lex left), primary.mpr ⟨left, read, rfl⟩, rfl⟩
  | and => exact lexed ▸ plain rfl (by rw [lexed]; rfl)
  | or => exact lexed ▸ plain rfl (by rw [lexed]; rfl)
  | group => exact lexed ▸ plain rfl (by rw [lexed]; rfl)
  | stuck present ident async bang and or group =>
    constructor
    · intro accepted
      cases accepted
    · intro taken
      obtain ⟨left, takes, _⟩ := taken
      rw [not_takes_plain bang, primary_takes] at takes
      rcases takes with ⟨stream, inner, rfl, _⟩ | ⟨name, own, rfl, _⟩ | ⟨name, own, rfl, _⟩
      · cases group
      · exact absurd async (by simp [word_front_cons])
      · rw [ident_front_cons own] at ident
        cases ident

/-! #### Operators -/

/-- A character that stands twice is the token of an operator. -/
structure Marks (operator : Char) (operates : GuardToken Text → Bool) : Prop where
  present : ∀ {input rest}, pair_front operator input = some ((), rest) →
    ∃ token, operates token = true ∧ lex input = token :: lex rest
  missing : ∀ {input token more}, pair_front operator input = none →
    lex input = token :: more → operates token = false

theorem marks_and : Marks '&' GuardToken.conjoins where
  present := by
    intro input rest found
    obtain ⟨joint, rfl⟩ := pair_front_eq.mp found
    exact ⟨.andAnd, rfl, lex_and⟩
  missing := by
    intro input token more other same
    have formed := ahead input
    rw [same] at formed
    cases formed <;> first | rfl | cases other

theorem marks_or : Marks '|' GuardToken.disjoins where
  present := by
    intro input rest found
    obtain ⟨joint, rfl⟩ := pair_front_eq.mp found
    exact ⟨.orOr, rfl, lex_or⟩
  missing := by
    intro input token more other same
    have formed := ahead input
    rw [same] at formed
    cases formed <;> first | rfl | cases other

section Operands

variable {operator : Char} {operates : GuardToken Text → Bool}
  {operand : Parser (GuardExpression (AsyncIdent Text))}
  {accepts : List (GuardToken Text) → Accepted Text}
  {build : GuardExpression (AsyncIdent Text) → GuardExpression (AsyncIdent Text) →
    GuardExpression (AsyncIdent Text)}

/-- The loops follow each other. The induction is on their turns. -/
theorem operands_follow (marks : Marks operator operates)
    (follows : Follows operand accepts) {fuel : Nat} :
    GuardToken.parse_operands operates accepts build fuel left (lex input) =
        some (guard, more) ↔
      ∃ rest, (parse_operands operator operand build fuel left).Takes input guard rest ∧
        more = lex rest := by
  induction fuel generalizing left input with
  | zero =>
    unfold parse_operands GuardToken.parse_operands
    simp only [Option.some.injEq, Prod.mk.injEq, takes_pure]
    constructor
    · intro same
      exact ⟨input, ⟨same.1.symm, rfl⟩, same.2.symm⟩
    · intro taken
      obtain ⟨rest, ⟨rfl, rfl⟩, rfl⟩ := taken
      exact ⟨rfl, rfl⟩
  | succ fuel ih =>
    unfold parse_operands
    simp only [takes_peek_bind, takes_ite]
    cases found : pair_front operator input with
    | none =>
      have ended : GuardToken.parse_operands operates accepts build (fuel + 1) left
          (lex input) = some (left, lex input) := by
        cases same : lex input with
        | nil => rfl
        | cons token behind =>
          unfold GuardToken.parse_operands
          rw [marks.missing found same]
          rfl
      rw [ended]
      simp only [Option.some.injEq, Prod.mk.injEq, takes_pure, Option.isSome_none,
        Bool.false_eq_true, false_and, false_or, not_false_eq_true, true_and]
      constructor
      · intro same
        exact ⟨input, ⟨same.1.symm, rfl⟩, same.2.symm⟩
      · intro taken
        obtain ⟨rest, ⟨rfl, rfl⟩, rfl⟩ := taken
        exact ⟨rfl, rfl⟩
    | some both =>
      obtain ⟨token, operator, same⟩ := marks.present found
      rw [same]
      unfold GuardToken.parse_operands
      rw [if_pos operator, Option.bind_eq_some_iff]
      simp only [Option.isSome_some, true_and, not_true_eq_false, false_and, or_false]
      constructor
      · intro accepted
        obtain ⟨⟨right, behind⟩, read, further⟩ := accepted
        obtain ⟨mid, takes, rfl⟩ := follows.mp read
        obtain ⟨rest, takes', rfl⟩ := ih.mp further
        exact ⟨rest, takes_bind.mpr ⟨(), both.2, takes_expect.mpr found,
          takes_bind.mpr ⟨right, mid, takes, takes'⟩⟩, rfl⟩
      · intro taken
        obtain ⟨rest, takes, rfl⟩ := taken
        obtain ⟨_, mid, found', further⟩ := takes_bind.mp takes
        obtain ⟨right, behind, read, looped⟩ := takes_bind.mp further
        obtain rfl : both = ((), mid) :=
          Option.some.inj (found.symm.trans (takes_expect.mp found'))
        exact ⟨(right, lex behind), follows.mpr ⟨behind, read, rfl⟩,
          ih.mpr ⟨rest, looped, rfl⟩⟩

/-- A loop behind its first operand. -/
theorem proceed_follows (marks : Marks operator operates)
    (follows : Follows operand accepts) (consumes : Consumes accepts)
    {first : Parser (GuardExpression (AsyncIdent Text))}
    {begins : List (GuardToken Text) → Accepted Text} (leads : Follows first begins) :
    Follows
      (do
        let left ← first
        let fuel ← look List.length
        parse_operands operator operand build fuel left)
      (fun tokens => (begins tokens).bind fun (left, rest) =>
        GuardToken.parse_operands operates accepts build rest.length left rest) := by
  intro input guard more
  rw [Option.bind_eq_some_iff]
  constructor
  · intro accepted
    obtain ⟨⟨left, behind⟩, read, further⟩ := accepted
    obtain ⟨mid, takes, rfl⟩ := leads.mp read
    dsimp only at further
    rw [parse_operands_fuel consumes (Nat.le_refl _) (length_lex mid)] at further
    obtain ⟨rest, looped, rfl⟩ := (operands_follow marks follows).mp further
    exact ⟨rest, takes_bind.mpr ⟨left, mid, takes, takes_bind.mpr
      ⟨mid.length, mid, takes_look.mpr ⟨rfl, rfl⟩, looped⟩⟩, rfl⟩
  · intro taken
    obtain ⟨rest, takes, rfl⟩ := taken
    obtain ⟨left, mid, read, further⟩ := takes_bind.mp takes
    obtain ⟨fuel, behind, looked, looped⟩ := takes_bind.mp further
    obtain ⟨rfl, rfl⟩ := takes_look.mp looked
    refine ⟨(left, lex behind), leads.mpr ⟨behind, read, rfl⟩, ?_⟩
    dsimp only
    rw [parse_operands_fuel consumes (Nat.le_refl _) (length_lex behind)]
    exact (operands_follow marks follows).mpr ⟨rest, looped, rfl⟩

end Operands

theorem and_follows (follows : Follows content accepts) :
    Follows (parse_and content) (GuardToken.parse_and accepts) :=
  proceed_follows marks_and (not_follows follows) parse_not_consumes
    (not_follows follows)

theorem alternatives_follow (follows : Follows content accepts) :
    Follows (parse_alternatives content) (GuardToken.parse_alternatives accepts) :=
  proceed_follows marks_or (and_follows follows) parse_and_consumes
    (and_follows follows)

/-- The parsers follow each other for each bound on the groups. -/
theorem or_follows (depth : Nat) :
    Follows (parse_or depth) (GuardToken.parse_or depth) := by
  induction depth with
  | zero =>
    intro input guard more
    constructor
    · intro accepted
      cases accepted
    · intro taken
      obtain ⟨rest, takes, _⟩ := taken
      exact absurd takes takes_fail
  | succ depth ih => exact alternatives_follow ih

/-! #### The bound on the groups -/

/-- A parser accepts whatever another one accepts. -/
def Extends (parse wider : List (GuardToken Text) → Accepted Text) : Prop :=
  ∀ {tokens result}, parse tokens = some result → wider tokens = some result

section Extends

variable {wider : List (GuardToken Text) → Accepted Text}

theorem extends_primary (extends' : Extends accepts wider) :
    Extends (GuardToken.parse_primary accepts) (GuardToken.parse_primary wider) := by
  intro tokens result accepted
  obtain ⟨guard, more⟩ := result
  rw [accepted_primary] at accepted ⊢
  rcases accepted with ⟨stream, inner, same, inside, same'⟩ | other
  · exact .inl ⟨stream, inner, same, extends' inside, same'⟩
  · exact .inr other

theorem extends_not (extends' : Extends accepts wider) :
    Extends (GuardToken.parse_not accepts) (GuardToken.parse_not wider) := by
  intro tokens result accepted
  unfold GuardToken.parse_not at accepted ⊢
  split at accepted
  · obtain ⟨inner, found, same⟩ := Option.map_eq_some_iff.mp accepted
    exact Option.map_eq_some_iff.mpr ⟨inner, extends_primary extends' found, same⟩
  · exact extends_primary extends' accepted

theorem extends_operands {operates : GuardToken Text → Bool}
    {build : GuardExpression (AsyncIdent Text) → GuardExpression (AsyncIdent Text) →
      GuardExpression (AsyncIdent Text)}
    (extends' : Extends accepts wider) {fuel : Nat}
    {result : GuardExpression (AsyncIdent Text) × List (GuardToken Text)}
    (accepted : GuardToken.parse_operands operates accepts build fuel left tokens =
      some result) :
    GuardToken.parse_operands operates wider build fuel left tokens = some result := by
  induction fuel generalizing left tokens with
  | zero => exact accepted
  | succ fuel ih =>
    cases tokens with
    | nil => exact accepted
    | cons token behind =>
      unfold GuardToken.parse_operands at accepted ⊢
      split at accepted
      · rename_i operator
        rw [if_pos operator]
        obtain ⟨both, found, further⟩ := Option.bind_eq_some_iff.mp accepted
        exact Option.bind_eq_some_iff.mpr ⟨both, extends' found, ih further⟩
      · rename_i other
        rw [if_neg other]
        exact accepted

theorem extends_and (extends' : Extends accepts wider) :
    Extends (GuardToken.parse_and accepts) (GuardToken.parse_and wider) := by
  intro tokens result accepted
  obtain ⟨both, found, further⟩ := Option.bind_eq_some_iff.mp accepted
  exact Option.bind_eq_some_iff.mpr ⟨both, extends_not extends' found,
    extends_operands (extends_not extends') further⟩

theorem extends_alternatives (extends' : Extends accepts wider) :
    Extends (GuardToken.parse_alternatives accepts)
      (GuardToken.parse_alternatives wider) := by
  intro tokens result accepted
  obtain ⟨both, found, further⟩ := Option.bind_eq_some_iff.mp accepted
  exact Option.bind_eq_some_iff.mpr ⟨both, extends_and extends' found,
    extends_operands (extends_and extends') further⟩

end Extends

theorem extends_or (depth : Nat) :
    Extends (GuardToken.parse_or (G := Text) depth) (GuardToken.parse_or (depth + 1)) := by
  induction depth with
  | zero =>
    intro tokens result accepted
    cases accepted
  | succ depth ih => exact extends_alternatives ih

theorem parse_or_mono {depth deeper : Nat} (below : depth ≤ deeper) :
    Extends (GuardToken.parse_or (G := Text) depth) (GuardToken.parse_or deeper) := by
  induction below with
  | refl => exact fun accepted => accepted
  | step _ ih => exact fun accepted => extends_or _ (ih accepted)

theorem parse_guard_eq_some :
    parse_guard tokens = some guard ↔
      GuardToken.parse_or (GuardToken.nesting.nestings tokens + 1) tokens =
        some (guard, []) := by
  unfold parse_guard
  split
  · rename_i found
    rw [found]
    simp
  · rename_i other
    constructor
    · intro accepted
      cases accepted
    · intro accepted
      exact absurd accepted (other _)

/-- What is accepted with any bound on the groups is accepted with the bound that the
tokens give. -/
theorem parse_guard_of_or {depth : Nat}
    (deep : GuardToken.nesting.nestings tokens < depth) :
    GuardToken.parse_or depth tokens = some (guard, []) ↔
      parse_guard tokens = some guard := by
  constructor
  · intro accepted
    obtain ⟨front, same, derived, plain, _⟩ := parse_or_takes depth accepted
    rw [List.append_nil] at same
    subst same
    obtain ⟨other, found, _⟩ := parse_guard_of_derives derived plain
    have again := parse_or_mono deep (parse_guard_eq_some.mp found)
    obtain rfl : guard = other := (Prod.mk.inj (Option.some.inj (accepted.symm.trans again))).1
    exact found
  · intro accepted
    exact parse_or_mono deep (parse_guard_eq_some.mp accepted)

/-- A guard is read to its end where the tokens of guards are accepted. -/
theorem guard_takes_iff {stream : TokenStream} :
    GuardExpression.parse.Takes stream guard [] ↔ parse_guard (lex stream) = some guard := by
  have deep : GuardToken.nesting.nestings (lex stream) <
      TokenTree.nesting.nestings stream + 1 :=
    Nat.lt_succ_of_le (nestings_lex stream)
  rw [← parse_guard_of_or deep, or_follows]
  unfold GuardExpression.parse
  constructor
  · intro takes
    obtain ⟨depth, mid, looked, read⟩ := takes_bind.mp takes
    obtain ⟨rfl, rfl⟩ := takes_look.mp looked
    exact ⟨[], read, (lex_eq_nil.mpr rfl).symm⟩
  · intro taken
    obtain ⟨rest, takes, empty⟩ := taken
    obtain rfl := lex_eq_nil.mp empty.symm
    exact takes_bind.mpr ⟨_, stream, takes_look.mpr ⟨rfl, rfl⟩, takes⟩

end GuardExpression

end SmlRs.Macros.Rows
