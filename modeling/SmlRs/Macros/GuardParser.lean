/-
Module: SmlRs.Macros.GuardParser
Purpose: The guard parser on the tokens of a table, the grammar of guards, and
  what an accepted guard means once it is printed and read again.
Trusted boundary: none
Main exports: GuardToken, parse_guard, Derives, singles, guard_means
-/
import SmlRs.Macros.Guard

namespace SmlRs.Macros

variable {G A ε : Type*}

/-! ### Tokens -/

/-- A guard callback: its name, and whether it is called as `async`. -/
structure AsyncIdent (G : Type*) where
  ident : G
  is_async : Bool
deriving DecidableEq

/-- The tokens between the brackets of a guard. A parenthesised group is one
token tree. -/
inductive GuardToken (G : Type*) where
  | ident (name : G)
  | async
  | bang
  | andAnd
  | orOr
  | group (tokens : List (GuardToken G))

namespace GuardToken

/-- How deep the groups of a token are nested. -/
def nesting : GuardToken G → Nat
  | .group tokens => nestings tokens + 1
  | .ident _ | .async | .bang | .andAnd | .orOr => 0
where
  /-- How deep the groups of some tokens are nested. -/
  nestings : List (GuardToken G) → Nat
    | [] => 0
    | token :: rest => max (nesting token) (nestings rest)

def negates : GuardToken G → Bool
  | .bang => true
  | .ident _ | .async | .andAnd | .orOr | .group _ => false

def conjoins : GuardToken G → Bool
  | .andAnd => true
  | .ident _ | .async | .bang | .orOr | .group _ => false

def disjoins : GuardToken G → Bool
  | .orOr => true
  | .ident _ | .async | .bang | .andAnd | .group _ => false

/-- In a token, no `!` stands directly in front of another. -/
def single : GuardToken G → Bool
  | .group tokens => singles false tokens
  | .ident _ | .async | .bang | .andAnd | .orOr => true
where
  /-- No `!` stands directly in front of another, where one may stand in front of
  the first token. -/
  singles : Bool → List (GuardToken G) → Bool
    | _, [] => true
    | behind, token :: rest =>
        !(behind && token.negates) && single token && singles token.negates rest

end GuardToken

open GuardToken

/-! ### The parser -/

/-- What a parse function returns: the expression and the input behind it. -/
abbrev Accepted (G : Type*) :=
  Option (GuardExpression (AsyncIdent G) × List (GuardToken G))

namespace GuardToken

section Parser

variable (content : List (GuardToken G) → Accepted G)

/-- `parse_primary`, given what parses the content of a group. Tokens that it
leaves over in a group are an error of the whole parse. -/
def parse_primary : List (GuardToken G) → Accepted G
  | .group tokens :: rest =>
      match content tokens with
      | some (inner, []) => some (.group inner, rest)
      | _ => none
  | .async :: .ident name :: rest => some (.guard ⟨name, true⟩, rest)
  | .ident name :: rest => some (.guard ⟨name, false⟩, rest)
  | _ => none

/-- `parse_not`: what follows a `!` is a primary. -/
def parse_not : List (GuardToken G) → Accepted G
  | .bang :: rest =>
      (parse_primary content rest).map fun (inner, rest) => (.not inner, rest)
  | input => parse_primary content input

/-- A loop that goes on as long as an operator follows, with what parses an
operand of it and what it builds. -/
def parse_operands (operates : GuardToken G → Bool)
    (operand : List (GuardToken G) → Accepted G)
    (build : GuardExpression (AsyncIdent G) → GuardExpression (AsyncIdent G) →
      GuardExpression (AsyncIdent G)) :
    Nat → GuardExpression (AsyncIdent G) → List (GuardToken G) → Accepted G
  | fuel + 1, left, token :: rest =>
      if operates token then
        (operand rest).bind fun (right, rest) =>
          parse_operands operates operand build fuel (build left right) rest
      else some (left, token :: rest)
  | _, left, input => some (left, input)

/-- `parse_and`. Each turn of its loop consumes a token. -/
def parse_and (input : List (GuardToken G)) : Accepted G :=
  (parse_not content input).bind fun (left, rest) =>
    parse_operands conjoins (parse_not content) .and rest.length left rest

/-- The body of `parse_or`. -/
def parse_alternatives (input : List (GuardToken G)) : Accepted G :=
  (parse_and content input).bind fun (left, rest) =>
    parse_operands disjoins (parse_and content) .or rest.length left rest

end Parser

/-- `parse_or`, for groups nested less than `depth` deep. -/
def parse_or : Nat → List (GuardToken G) → Accepted G
  | 0, _ => none
  | depth + 1, input => parse_alternatives (parse_or depth) input

end GuardToken

/-- `GuardExpression::parse` on the content of the brackets, which has to be used
up. -/
def parse_guard (tokens : List (GuardToken G)) :
    Option (GuardExpression (AsyncIdent G)) :=
  match GuardToken.parse_or (nesting.nestings tokens + 1) tokens with
  | some (guard, []) => some guard
  | _ => none

/-! ### The grammar -/

/-- The levels of the grammar, the one that binds tightest first. -/
inductive GuardLevel where
  | primary
  | negation
  | conjunction
  | disjunction

/-- The usual grammar of boolean expressions: `!` binds tighter than `&&`, `&&`
tighter than `||`, and both associate to the left. -/
inductive Derives :
    GuardLevel → List (GuardToken G) → Expression (AsyncIdent G) → Prop where
  | ident (name : G) : Derives .primary [.ident name] (.operand ⟨name, false⟩)
  | async (name : G) :
      Derives .primary [.async, .ident name] (.operand ⟨name, true⟩)
  | group {tokens expression} (inner : Derives .disjunction tokens expression) :
      Derives .primary [.group tokens] expression
  | primary {tokens expression} (only : Derives .primary tokens expression) :
      Derives .negation tokens expression
  | not {tokens expression} (inner : Derives .negation tokens expression) :
      Derives .negation (.bang :: tokens) (.not expression)
  | negation {tokens expression} (only : Derives .negation tokens expression) :
      Derives .conjunction tokens expression
  | and {front back left right} (first : Derives .conjunction front left)
      (second : Derives .negation back right) :
      Derives .conjunction (front ++ .andAnd :: back) (.and left right)
  | conjunction {tokens expression}
      (only : Derives .conjunction tokens expression) :
      Derives .disjunction tokens expression
  | or {front back left right} (first : Derives .disjunction front left)
      (second : Derives .conjunction back right) :
      Derives .disjunction (front ++ .orOr :: back) (.or left right)

/-! ### Pairs of negations -/

section Negations

variable {behind : Bool} {front back : List (GuardToken G)} {token : GuardToken G}

theorem singles_append (binary : token.negates = false)
    (alone : single token = true) :
    single.singles behind (front ++ token :: back) =
      (single.singles behind front && single.singles false back) := by
  induction front generalizing behind with
  | nil => simp [single.singles, binary, alone]
  | cons first rest ih =>
    simp only [List.cons_append, single.singles, ih, Bool.and_assoc]

theorem nestings_append :
    nesting.nestings (front ++ back) =
      max (nesting.nestings front) (nesting.nestings back) := by
  induction front with
  | nil => simp [nesting.nestings]
  | cons first rest ih =>
    simp only [List.cons_append, nesting.nestings, ih, Nat.max_assoc]

/-- A primary does not begin with a `!`. -/
theorem Derives.singles_primary {tokens : List (GuardToken G)}
    {expression : Expression (AsyncIdent G)}
    (primary : Derives .primary tokens expression) :
    single.singles behind tokens = single.singles false tokens := by
  cases primary with
  | ident name => simp [single.singles, negates]
  | async name => simp [single.singles, negates]
  | group inner => simp [single.singles, negates]

end Negations

/-! ### What the parser accepts is derived -/

/-- A parser takes a front part off its input that the grammar derives, without a
pair of negations, and builds its expression for a level of precedence. -/
def Takes (level : GuardLevel) (fitting : Nat)
    (parser : List (GuardToken G) → Accepted G) : Prop :=
  ∀ {input guard rest}, parser input = some (guard, rest) →
    ∃ front, input = front ++ rest ∧
      Derives level front (guard.expression id) ∧
      single.singles false front = true ∧ guard.Fits fitting

section Sound

variable {content : List (GuardToken G) → Accepted G}
  (sound : Takes .disjunction 3 content)

include sound

theorem parse_primary_takes :
    Takes .primary 0 (GuardToken.parse_primary content) := by
  intro input guard rest parsed
  unfold GuardToken.parse_primary at parsed
  split at parsed
  · rename_i tokens behind
    split at parsed
    · rename_i inner found
      cases parsed
      obtain ⟨front, same, derived, plain, fits⟩ := sound found
      rw [List.append_nil] at same
      subst same
      refine ⟨[.group tokens], rfl, .group derived, ?_, fits⟩
      simp [single.singles, single, negates, plain]
    · cases parsed
  · cases parsed
    exact ⟨[.async, .ident _], rfl, .async _, rfl, trivial⟩
  · cases parsed
    exact ⟨[.ident _], rfl, .ident _, rfl, trivial⟩
  · cases parsed

theorem parse_not_takes : Takes .negation 1 (GuardToken.parse_not content) := by
  intro input guard rest parsed
  unfold GuardToken.parse_not at parsed
  split at parsed
  · obtain ⟨⟨inner, behind⟩, found, same⟩ := Option.map_eq_some_iff.mp parsed
    cases same
    obtain ⟨front, rfl, derived, plain, fits⟩ := parse_primary_takes sound found
    refine ⟨.bang :: front, rfl, .not (.primary derived), ?_, Nat.le_refl 1, fits⟩
    rw [← @Derives.singles_primary _ true _ _ derived] at plain
    simpa [single.singles, single, negates] using plain
  · obtain ⟨front, same, derived, plain, fits⟩ := parse_primary_takes sound parsed
    exact ⟨front, same, .primary derived, plain, fits.mono (Nat.zero_le 1)⟩

omit sound in
/-- A loop over operands, where each turn joins what is derived. -/
theorem parse_operands_takes {operates : GuardToken G → Bool}
    {operand : List (GuardToken G) → Accepted G}
    {build : GuardExpression (AsyncIdent G) → GuardExpression (AsyncIdent G) →
      GuardExpression (AsyncIdent G)}
    {inner outer : GuardLevel} {tight loose : Nat}
    (takes : Takes inner tight operand)
    (joins : ∀ {token front back left right}, operates token = true →
      Derives outer front (GuardExpression.expression id left) →
      Derives inner back (GuardExpression.expression id right) →
      left.Fits loose → right.Fits tight →
        token.negates = false ∧ single token = true ∧
          Derives outer (front ++ token :: back)
            ((build left right).expression id) ∧
          (build left right).Fits loose)
    {fuel : Nat} {input front rest : List (GuardToken G)}
    {left guard : GuardExpression (AsyncIdent G)}
    (derived : Derives outer front (left.expression id))
    (plain : single.singles false front = true) (fits : left.Fits loose)
    (parsed : GuardToken.parse_operands operates operand build fuel left input =
      some (guard, rest)) :
    ∃ more, front ++ input = more ++ rest ∧
      Derives outer more (guard.expression id) ∧
      single.singles false more = true ∧ guard.Fits loose := by
  induction fuel generalizing left input front with
  | zero =>
    cases input <;> cases parsed <;> exact ⟨front, rfl, derived, plain, fits⟩
  | succ fuel ih =>
    cases input with
    | nil =>
      cases parsed
      exact ⟨front, rfl, derived, plain, fits⟩
    | cons token behind =>
      unfold GuardToken.parse_operands at parsed
      split at parsed
      · rename_i operator
        obtain ⟨⟨right, input⟩, found, next⟩ := Option.bind_eq_some_iff.mp parsed
        obtain ⟨back, rfl, second, lone, fits'⟩ := takes found
        obtain ⟨binary, alone, both, fitting⟩ :=
          joins operator derived second fits fits'
        have plain' : single.singles false (front ++ token :: back) = true := by
          rw [singles_append binary alone, plain, lone]
          rfl
        obtain ⟨more, same, rest⟩ := ih both plain' fitting next
        refine ⟨more, ?_, rest⟩
        rw [← same, List.append_assoc, List.cons_append]
      · cases parsed
        exact ⟨front, rfl, derived, plain, fits⟩

theorem parse_and_takes : Takes .conjunction 2 (GuardToken.parse_and content) := by
  intro input guard rest parsed
  obtain ⟨⟨left, behind⟩, found, next⟩ := Option.bind_eq_some_iff.mp parsed
  obtain ⟨front, rfl, derived, plain, fits⟩ := parse_not_takes sound found
  refine parse_operands_takes (parse_not_takes sound) ?_ (.negation derived) plain
    (fits.mono (by omega)) next
  intro token front back left right operator first second fits fits'
  cases token <;> cases operator
  exact ⟨rfl, rfl, .and first second, Nat.le_refl 2, fits, fits'⟩

theorem parse_alternatives_takes :
    Takes .disjunction 3 (GuardToken.parse_alternatives content) := by
  intro input guard rest parsed
  obtain ⟨⟨left, behind⟩, found, next⟩ := Option.bind_eq_some_iff.mp parsed
  obtain ⟨front, rfl, derived, plain, fits⟩ := parse_and_takes sound found
  refine parse_operands_takes (parse_and_takes sound) ?_ (.conjunction derived)
    plain (fits.mono (by omega)) next
  intro token front back left right operator first second fits fits'
  cases token <;> cases operator
  exact ⟨rfl, rfl, .or first second, Nat.le_refl 3, fits, fits'⟩

end Sound

theorem parse_or_takes (depth : Nat) :
    Takes .disjunction 3 (GuardToken.parse_or (G := G) depth) := by
  induction depth with
  | zero =>
    intro input guard rest parsed
    cases parsed
  | succ depth ih => exact parse_alternatives_takes ih

/-! ### What the grammar derives is accepted -/

section Progress

variable {content : List (GuardToken G) → Accepted G}
  {input rest : List (GuardToken G)} {guard left : GuardExpression (AsyncIdent G)}

/-- A parser consumes a part of its input. -/
def Consumes (parser : List (GuardToken G) → Accepted G) : Prop :=
  ∀ {input guard rest}, parser input = some (guard, rest) →
    rest.length < input.length

theorem parse_primary_consumes :
    Consumes (GuardToken.parse_primary content) := by
  intro input guard rest parsed
  unfold GuardToken.parse_primary at parsed
  split at parsed
  · split at parsed
    · cases parsed
      exact Nat.lt_succ_self _
    · cases parsed
  · cases parsed
    exact Nat.lt_succ_of_lt (Nat.lt_succ_self _)
  · cases parsed
    exact Nat.lt_succ_self _
  · cases parsed

theorem parse_not_consumes : Consumes (GuardToken.parse_not content) := by
  intro input guard rest parsed
  unfold GuardToken.parse_not at parsed
  split at parsed
  · obtain ⟨⟨inner, behind⟩, found, same⟩ := Option.map_eq_some_iff.mp parsed
    cases same
    exact Nat.lt_succ_of_lt (parse_primary_consumes found)
  · exact parse_primary_consumes parsed

section Loop

variable {operates : GuardToken G → Bool}
  {operand : List (GuardToken G) → Accepted G}
  {build : GuardExpression (AsyncIdent G) → GuardExpression (AsyncIdent G) →
    GuardExpression (AsyncIdent G)}

/-- What a loop leaves of its input is no longer than the input. -/
theorem parse_operands_length (consumes : Consumes operand) {fuel : Nat}
    (parsed : GuardToken.parse_operands operates operand build fuel left input =
      some (guard, rest)) : rest.length ≤ input.length := by
  induction fuel generalizing left input with
  | zero => cases input <;> cases parsed <;> exact Nat.le_refl _
  | succ fuel ih =>
    cases input with
    | nil =>
      cases parsed
      exact Nat.le_refl _
    | cons token behind =>
      unfold GuardToken.parse_operands at parsed
      split at parsed
      · obtain ⟨⟨right, input⟩, found, next⟩ := Option.bind_eq_some_iff.mp parsed
        have shorter := consumes found
        have further := ih next
        simp only [List.length_cons]
        omega
      · cases parsed
        exact Nat.le_refl _

/-- A loop that has a turn for each token of its input does not depend on how many
more it has. -/
theorem parse_operands_fuel (consumes : Consumes operand) {fuel more : Nat}
    (enough : input.length ≤ fuel) (enough' : input.length ≤ more) :
    GuardToken.parse_operands operates operand build fuel left input =
      GuardToken.parse_operands operates operand build more left input := by
  induction fuel generalizing more left input with
  | zero =>
    have empty : input = [] := List.length_eq_zero_iff.mp (by omega)
    subst empty
    cases more <;> rfl
  | succ fuel ih =>
    cases input with
    | nil => cases more <;> rfl
    | cons token behind =>
      simp only [List.length_cons] at enough enough'
      cases more with
      | zero => omega
      | succ more =>
        unfold GuardToken.parse_operands
        split
        · apply Option.bind_congr
          intro parsed found
          have shorter := consumes found
          exact ih (by omega) (by omega)
        · rfl

/-- The loop behind an operand, with a turn for each token that is left. -/
abbrev proceed (operates : GuardToken G → Bool)
    (operand : List (GuardToken G) → Accepted G)
    (build : GuardExpression (AsyncIdent G) → GuardExpression (AsyncIdent G) →
      GuardExpression (AsyncIdent G))
    (left : GuardExpression (AsyncIdent G)) (input : List (GuardToken G)) :
    Accepted G :=
  GuardToken.parse_operands operates operand build input.length left input

theorem proceed_operator (consumes : Consumes operand) {token : GuardToken G}
    (operator : operates token = true) {behind : List (GuardToken G)}
    {right : GuardExpression (AsyncIdent G)}
    (parsed : operand input = some (right, behind)) :
    proceed operates operand build left (token :: input) =
      proceed operates operand build (build left right) behind := by
  unfold proceed
  rw [List.length_cons]
  conv_lhs => unfold GuardToken.parse_operands
  rw [if_pos operator, parsed]
  exact parse_operands_fuel consumes (Nat.le_of_lt (consumes parsed)) (Nat.le_refl _)

theorem proceed_end (ends : ∀ token ∈ input.head?, operates token = false) :
    proceed operates operand build left input = some (left, input) := by
  cases input with
  | nil => rfl
  | cons token behind =>
    have ended := ends token rfl
    unfold proceed
    rw [List.length_cons]
    unfold GuardToken.parse_operands
    rw [ended]
    rfl

end Loop

theorem parse_and_consumes : Consumes (GuardToken.parse_and content) := by
  intro input guard rest parsed
  obtain ⟨⟨left, behind⟩, found, next⟩ := Option.bind_eq_some_iff.mp parsed
  have shorter := parse_not_consumes found
  have further := parse_operands_length parse_not_consumes next
  omega

end Progress

/-- A parser takes a front part off every input that begins with it. -/
def Finds (parser : List (GuardToken G) → Accepted G)
    (front : List (GuardToken G)) (expression : Expression (AsyncIdent G)) :
    Prop :=
  ∃ guard : GuardExpression (AsyncIdent G), guard.expression id = expression ∧
    ∀ rest, parser (front ++ rest) = some (guard, rest)

/-- The parser of a level comes to the end of a front part. At the two levels with
a loop, the loop goes on from there. -/
def Arrives (content : List (GuardToken G) → Accepted G) :
    GuardLevel → List (GuardToken G) → Expression (AsyncIdent G) → Prop
  | .primary, front, expression =>
      Finds (GuardToken.parse_primary content) front expression
  | .negation, front, expression =>
      Finds (GuardToken.parse_not content) front expression ∧
        (single.singles true front = true →
          Finds (GuardToken.parse_primary content) front expression)
  | .conjunction, front, expression =>
      ∃ guard : GuardExpression (AsyncIdent G), guard.expression id = expression ∧
        ∀ rest, GuardToken.parse_and content (front ++ rest) =
          proceed conjoins (GuardToken.parse_not content) .and guard rest
  | .disjunction, front, expression =>
      ∃ guard : GuardExpression (AsyncIdent G), guard.expression id = expression ∧
        ∀ rest : List (GuardToken G),
          (∀ token ∈ rest.head?, conjoins token = false) →
            GuardToken.parse_alternatives content (front ++ rest) =
              proceed disjoins (GuardToken.parse_and content) .or guard rest

theorem Derives.begins {front : List (GuardToken G)}
    {expression : Expression (AsyncIdent G)}
    (primary : Derives .primary front expression) :
    ∃ token rest, front = token :: rest ∧ token.negates = false := by
  cases primary with
  | ident name => exact ⟨_, _, rfl, rfl⟩
  | async name => exact ⟨_, _, rfl, rfl⟩
  | group inner => exact ⟨_, _, rfl, rfl⟩

theorem parse_not_primary {content : List (GuardToken G) → Accepted G}
    {token : GuardToken G} (operand : token.negates = false)
    (rest : List (GuardToken G)) :
    GuardToken.parse_not content (token :: rest) =
      GuardToken.parse_primary content (token :: rest) := by
  cases token <;> first | rfl | cases operand

/-- What the grammar derives without a pair of negations, the parser accepts. The
induction is on the derivation, for every bound on the nesting of its groups. -/
theorem Derives.arrives {level : GuardLevel} {front : List (GuardToken G)}
    {expression : Expression (AsyncIdent G)}
    (derived : Derives level front expression) :
    ∀ depth, nesting.nestings front ≤ depth →
      single.singles false front = true →
        Arrives (GuardToken.parse_or depth) level front expression := by
  induction derived with
  | ident name => exact fun _ _ _ => ⟨.guard ⟨name, false⟩, rfl, fun _ => rfl⟩
  | async name => exact fun _ _ _ => ⟨.guard ⟨name, true⟩, rfl, fun _ => rfl⟩
  | @group tokens expression inner ih =>
    intro depth bound plain
    cases depth with
    | zero => simp [nesting.nestings, nesting] at bound
    | succ depth =>
      have bound' : nesting.nestings tokens ≤ depth := by
        simpa [nesting.nestings, nesting] using bound
      have plain' : single.singles false tokens = true := by
        simpa [single.singles, single, negates] using plain
      obtain ⟨guard, same, arrives⟩ := ih depth bound' plain'
      have content : GuardToken.parse_or (depth + 1) tokens = some (guard, []) := by
        have parsed := arrives [] (by simp)
        rw [List.append_nil] at parsed
        exact parsed
      refine ⟨.group guard, same, fun rest => ?_⟩
      simp [GuardToken.parse_primary, content]
  | @primary tokens expression only ih =>
    intro depth bound plain
    obtain ⟨guard, same, arrives⟩ := ih depth bound plain
    refine ⟨⟨guard, same, fun rest => ?_⟩, fun _ => ⟨guard, same, arrives⟩⟩
    obtain ⟨token, behind, rfl, operand⟩ := only.begins
    rw [List.cons_append, parse_not_primary operand]
    exact arrives rest
  | @not tokens expression inner ih =>
    intro depth bound plain
    have behind : single.singles true tokens = true := by
      simpa [single.singles, single, negates] using plain
    have bound' : nesting.nestings tokens ≤ depth := by
      simpa [nesting.nestings, nesting] using bound
    have plain' : single.singles false tokens = true := by
      cases tokens with
      | nil => rfl
      | cons token rest =>
        simp only [single.singles, Bool.and_eq_true] at behind ⊢
        exact ⟨⟨rfl, behind.1.2⟩, behind.2⟩
    obtain ⟨guard, same, arrives⟩ := (ih depth bound' plain').2 behind
    constructor
    · refine ⟨.not guard, congrArg _ same, fun rest => ?_⟩
      simp [GuardToken.parse_not, arrives]
    · intro pair
      simp [single.singles, negates] at pair
  | @negation tokens expression only ih =>
    intro depth bound plain
    obtain ⟨guard, same, arrives⟩ := (ih depth bound plain).1
    refine ⟨guard, same, fun rest => ?_⟩
    unfold GuardToken.parse_and
    rw [arrives]
    rfl
  | @and front back left right first second first_ih second_ih =>
    intro depth bound plain
    rw [nestings_append, nesting.nestings] at bound
    rw [singles_append rfl rfl, Bool.and_eq_true] at plain
    obtain ⟨before, same, arrives⟩ := first_ih depth (by omega) plain.1
    obtain ⟨after, same', finds⟩ := (second_ih depth (by omega) plain.2).1
    refine ⟨.and before after, ?_, fun rest => ?_⟩
    · simp only [GuardExpression.expression, same, same']
    · rw [List.append_assoc, List.cons_append, arrives]
      exact proceed_operator parse_not_consumes rfl (finds rest)
  | @conjunction tokens expression only ih =>
    intro depth bound plain
    obtain ⟨guard, same, arrives⟩ := ih depth bound plain
    refine ⟨guard, same, fun rest ends => ?_⟩
    unfold GuardToken.parse_alternatives
    rw [arrives, proceed_end ends]
    rfl
  | @or front back left right first second first_ih second_ih =>
    intro depth bound plain
    rw [nestings_append, nesting.nestings] at bound
    rw [singles_append rfl rfl, Bool.and_eq_true] at plain
    obtain ⟨before, same, arrives⟩ := first_ih depth (by omega) plain.1
    obtain ⟨after, same', finds⟩ := second_ih depth (by omega) plain.2
    refine ⟨.or before after, ?_, fun rest ends => ?_⟩
    · simp only [GuardExpression.expression, same, same']
    · rw [List.append_assoc, List.cons_append, arrives _ (by simp [conjoins])]
      apply proceed_operator parse_and_consumes rfl
      rw [finds, proceed_end ends]

/-! ### What a guard means -/

namespace Expression

/-- The guards that are called while an expression is evaluated, in order. -/
def calls (values : A → Except ε Bool) : Expression A → List A
  | .operand name => [name]
  | .not inner => inner.calls values
  | .and left right =>
      left.calls values ++
        match left.eval values with
        | .ok true => right.calls values
        | _ => []
  | .or left right =>
      left.calls values ++
        match left.eval values with
        | .ok false => right.calls values
        | _ => []

/-- The value of an expression whose operands have one. -/
def value (values : A → Bool) : Expression A → Bool
  | .operand name => values name
  | .not inner => !inner.value values
  | .and left right => left.value values && right.value values
  | .or left right => left.value values || right.value values

theorem eval_ok (values : A → Bool) (expression : Expression A) :
    expression.eval (fun name => (.ok (values name) : Except ε Bool)) =
      .ok (expression.value values) := by
  induction expression with
  | operand name => rfl
  | not inner ih =>
    simp only [eval, ih, value]
    rfl
  | and left right left_ih right_ih =>
    simp only [eval, left_ih, right_ih, value]
    cases left.value values <;> rfl
  | or left right left_ih right_ih =>
    simp only [eval, left_ih, right_ih, value]
    cases left.value values <;> rfl

end Expression

/-- A printed guard is read as the expression it was parsed into. -/
theorem read_tokens {guard : GuardExpression G} (visit : G → A)
    (fits : guard.Fits 3) :
    read (guard.tokens visit) = some (guard.expression visit) := by
  have reads := (@readTokens_guard _ _ visit guard).1 fits none none []
  rw [List.append_nil] at reads
  unfold read
  rw [reads, readOperator, joinOr_joined fits]

section Guards

variable {tokens : List (GuardToken G)} {guard : GuardExpression (AsyncIdent G)}
  {expression : Expression (AsyncIdent G)}

theorem derives_of_parse_guard (parsed : parse_guard tokens = some guard) :
    Derives .disjunction tokens (guard.expression id) ∧
      single.singles false tokens = true ∧ guard.Fits 3 := by
  unfold parse_guard at parsed
  split at parsed
  · rename_i found
    cases parsed
    obtain ⟨front, same, derived, plain, fits⟩ := parse_or_takes _ found
    rw [List.append_nil] at same
    subst same
    exact ⟨derived, plain, fits⟩
  · cases parsed

theorem parse_guard_of_derives
    (derived : Derives .disjunction tokens expression)
    (plain : single.singles false tokens = true) :
    ∃ guard, parse_guard tokens = some guard ∧
      guard.expression id = expression := by
  obtain ⟨guard, same, arrives⟩ := derived.arrives _ (Nat.le_refl _) plain
  have parsed := arrives [] (by simp)
  rw [List.append_nil] at parsed
  have whole : GuardToken.parse_or (nesting.nestings tokens + 1) tokens =
      some (guard, []) := parsed
  refine ⟨guard, ?_, same⟩
  unfold parse_guard
  rw [whole]

end Guards

/-- The parser accepts what the grammar derives, pairs of negations apart. What it
accepts has one derivation, and its printed tokens mean what is derived: they have
its value, and call its guards in order. -/
theorem guard_means (tokens : List (GuardToken G)) :
    ((∃ guard, parse_guard tokens = some guard) ↔
        (∃ expression, Derives .disjunction tokens expression) ∧
          single.singles false tokens = true) ∧
      ∀ guard, parse_guard tokens = some guard →
        ∀ expression, Derives .disjunction tokens expression →
          ∃ printed, read (guard.tokens id) = some printed ∧
            (∀ values : AsyncIdent G → Except ε Bool,
              printed.eval values = expression.eval values ∧
                printed.calls values = expression.calls values) ∧
            ∀ values : AsyncIdent G → Bool,
              printed.eval (fun name => (.ok (values name) : Except ε Bool)) =
                .ok (expression.value values) := by
  constructor
  · constructor
    · intro accepted
      obtain ⟨guard, parsed⟩ := accepted
      obtain ⟨derived, plain, _⟩ := derives_of_parse_guard parsed
      exact ⟨⟨_, derived⟩, plain⟩
    · intro both
      obtain ⟨⟨expression, derived⟩, plain⟩ := both
      obtain ⟨guard, parsed, _⟩ := parse_guard_of_derives derived plain
      exact ⟨guard, parsed⟩
  · intro guard parsed expression derived
    obtain ⟨_, plain, fits⟩ := derives_of_parse_guard parsed
    obtain ⟨other, again, same⟩ := parse_guard_of_derives derived plain
    have only : other = guard := Option.some.inj (again.symm.trans parsed)
    subst only
    refine ⟨expression, ?_, fun _ => ⟨rfl, rfl⟩, fun values => ?_⟩
    · rw [read_tokens id fits, same]
    · exact expression.eval_ok values

/-- `[!!ready]`. -/
def twice_negated : List (GuardToken Nat) :=
  [.bang, .bang, .ident 0]

/-- It is a boolean expression, and is not accepted. -/
theorem pair_rejected :
    parse_guard twice_negated = none ∧
      ¬ ((∃ guard, parse_guard twice_negated = some guard) ↔
        ∃ expression, Derives .disjunction twice_negated expression) := by
  refine ⟨rfl, fun accepts => ?_⟩
  have derived : Derives .disjunction twice_negated
      (.not (.not (.operand ⟨0, false⟩))) :=
    .conjunction (.negation (.not (.not (.primary (.ident 0)))))
  obtain ⟨guard, parsed⟩ := accepts.mpr ⟨_, derived⟩
  cases parsed

end SmlRs.Macros
