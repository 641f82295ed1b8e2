/-
Module: SmlRs.Macros.Guard
Purpose: Guard expressions, the tokens a row's condition is spliced together
  from, and what the condition means once those tokens are read as an
  expression again.
Trusted boundary: none
Main exports: GuardExpression, GuardExpression.to_token_stream, parse_or, Guard,
  read, condition, condition_guarded
-/
import Mathlib.Tactic.Common

namespace SmlRs.Macros

/-!
A generator prints a guard with `to_token_stream` and puts the result behind
`!handled && candidate &&`.  No parentheses are added on the way, so what the
row checks is decided by the precedence of the operators in the joined tokens
and not by the tree the guard was parsed into.
-/

variable {G A ε : Type*}

/-- `GuardExpression`, over the names of the guard callbacks. -/
inductive GuardExpression (G : Type*) where
  | guard (name : G)
  | not (inner : GuardExpression G)
  | group (inner : GuardExpression G)
  | and (left right : GuardExpression G)
  | or (left right : GuardExpression G)
deriving Repr

/-- The tokens a condition is written with. A block such as the call of a guard
is one operand, and a parenthesised group is one token tree. -/
inductive Token (A : Type*) where
  | operand (name : A)
  | bang
  | andAnd
  | orOr
  | group (tokens : List (Token A))

/-- A boolean expression of the generated code, with its parentheses gone. -/
inductive Expression (A : Type*) where
  | operand (name : A)
  | not (inner : Expression A)
  | and (left right : Expression A)
  | or (left right : Expression A)
deriving Repr, DecidableEq

/-! ### Values -/

/-- `left && right`, where `right` is only looked at behind a true `left`. -/
def both (left right : Except ε Bool) : Except ε Bool :=
  left.bind fun value => if value then right else .ok false

/-- `left || right`, where `right` is only looked at behind a false `left`. -/
def either (left right : Except ε Bool) : Except ε Bool :=
  left.bind fun value => if value then .ok true else right

@[simp] theorem both_true (right : Except ε Bool) :
    both (.ok true) right = right := rfl

@[simp] theorem both_false (right : Except ε Bool) :
    both (.ok false) right = .ok false := rfl

@[simp] theorem either_true (right : Except ε Bool) :
    either (.ok true) right = .ok true := rfl

@[simp] theorem either_false (right : Except ε Bool) :
    either (.ok false) right = right := rfl

theorem both_assoc (first second third : Except ε Bool) :
    both (both first second) third = both first (both second third) := by
  rcases first with error | (_ | _) <;> rfl

/-- The value of an expression, with Rust's short circuits. -/
def Expression.eval (values : A → Except ε Bool) : Expression A → Except ε Bool
  | .operand name => values name
  | .not inner => (inner.eval values).map (!·)
  | .and left right => both (left.eval values) (right.eval values)
  | .or left right => either (left.eval values) (right.eval values)

namespace GuardExpression

/-- The value of the guard as it was declared. -/
def eval (values : G → Except ε Bool) : GuardExpression G → Except ε Bool
  | .guard name => values name
  | .not inner => (inner.eval values).map (!·)
  | .group inner => inner.eval values
  | .and left right => both (left.eval values) (right.eval values)
  | .or left right => either (left.eval values) (right.eval values)

/-- The value of the alternatives behind the first one at the top level. -/
def alternatives (values : G → Except ε Bool) :
    GuardExpression G → Except ε Bool
  | .or left right => either (left.alternatives values) (right.eval values)
  | _ => .ok false

/-- `GuardExpression::to_token_stream`. -/
def to_token_stream (visit : G → Token A) : GuardExpression G → List (Token A)
  | .guard name => [visit name]
  | .not inner => .bang :: inner.to_token_stream visit
  | .group inner => [.group (inner.to_token_stream visit)]
  | .and left right =>
      left.to_token_stream visit ++ .andAnd :: right.to_token_stream visit
  | .or left right =>
      left.to_token_stream visit ++ .orOr :: right.to_token_stream visit

/-- Whether the expression is one the parser builds at this level: a primary
at 0, a negation at 1, a conjunction at 2 and a disjunction at 3. -/
def Fits : GuardExpression G → Nat → Prop
  | .guard _, _ => True
  | .group inner, _ => inner.Fits 3
  | .not inner, level => 1 ≤ level ∧ inner.Fits 0
  | .and left right, level => 2 ≤ level ∧ left.Fits 2 ∧ right.Fits 1
  | .or left right, level => 3 ≤ level ∧ left.Fits 3 ∧ right.Fits 2

theorem Fits.mono {expression : GuardExpression G} {lower upper : Nat}
    (fits : expression.Fits lower) (below : lower ≤ upper) :
    expression.Fits upper := by
  cases expression with
  | guard => trivial
  | group => exact fits
  | not => exact ⟨Nat.le_trans fits.1 below, fits.2⟩
  | and => exact ⟨Nat.le_trans fits.1 below, fits.2⟩
  | or => exact ⟨Nat.le_trans fits.1 below, fits.2⟩

/-- A guard is a disjunction or has no alternatives. -/
theorem Fits.cases {expression : GuardExpression G}
    (fits : expression.Fits 3) :
    (∃ left right, expression = .or left right) ∨ expression.Fits 2 := by
  cases expression with
  | guard => exact .inr trivial
  | group => exact .inr fits
  | not => exact .inr ⟨Nat.le_succ 1, fits.2⟩
  | and => exact .inr ⟨Nat.le_refl 2, fits.2⟩
  | or left right => exact .inl ⟨left, right, rfl⟩

theorem alternatives_of_fits {expression : GuardExpression G}
    (fits : expression.Fits 2) (values : G → Except ε Bool) :
    expression.alternatives values = .ok false := by
  cases expression with
  | or => exact absurd fits.1 (by omega)
  | _ => rfl

end GuardExpression

/-! ### The guard parser -/

/-- What a parse function returns: the expression and the input behind it. -/
abbrev Parsed (G : Type*) := Option (GuardExpression G × List (Token G))

section Parser

variable (content : List (Token G) → Parsed G)

/-- `parse_primary`, given what parses the content of a group. -/
def parse_primary : List (Token G) → Parsed G
  | .group tokens :: rest =>
      match content tokens with
      | some (inner, []) => some (.group inner, rest)
      | _ => none
  | .operand name :: rest => some (.guard name, rest)
  | _ => none

/-- `parse_not`: one negation at most. -/
def parse_not : List (Token G) → Parsed G
  | .bang :: rest =>
      (parse_primary content rest).map fun (inner, rest) => (.not inner, rest)
  | input => parse_primary content input

/-- The loop of `parse_and`. -/
def parse_and_loop : Nat → GuardExpression G → List (Token G) → Parsed G
  | 0, left, input => some (left, input)
  | fuel + 1, left, input =>
      match input with
      | .andAnd :: rest =>
          (parse_not content rest).bind fun (right, rest) =>
            parse_and_loop fuel (.and left right) rest
      | _ => some (left, input)

/-- `parse_and`. -/
def parse_and (input : List (Token G)) : Parsed G :=
  (parse_not content input).bind fun (left, rest) =>
    parse_and_loop content input.length left rest

/-- The loop of `parse_or`. -/
def parse_or_loop : Nat → GuardExpression G → List (Token G) → Parsed G
  | 0, left, input => some (left, input)
  | fuel + 1, left, input =>
      match input with
      | .orOr :: rest =>
          (parse_and content rest).bind fun (right, rest) =>
            parse_or_loop fuel (.or left right) rest
      | _ => some (left, input)

end Parser

/-- `parse_or`, for groups nested at most `depth` deep. -/
def parse_or : Nat → List (Token G) → Parsed G
  | 0, _ => none
  | depth + 1, input =>
      (parse_and (parse_or depth) input).bind fun (left, rest) =>
        parse_or_loop (parse_or depth) input.length left rest

section Parser

variable {content : List (Token G) → Parsed G}
  {input rest : List (Token G)} {left result : GuardExpression G} {fuel : Nat}

/-- The content parser only builds disjunctions. -/
def Sound (content : List (Token G) → Parsed G) : Prop :=
  ∀ {input result rest}, content input = some (result, rest) → result.Fits 3

theorem parse_primary_fits (sound : Sound content)
    (parsed : parse_primary content input = some (result, rest)) :
    result.Fits 0 := by
  unfold parse_primary at parsed
  split at parsed
  · split at parsed
    · rename_i inner found
      cases parsed
      exact sound found
    · cases parsed
  · cases parsed
    trivial
  · cases parsed

theorem parse_not_fits (sound : Sound content)
    (parsed : parse_not content input = some (result, rest)) :
    result.Fits 1 := by
  unfold parse_not at parsed
  split at parsed
  · obtain ⟨⟨inner, behind⟩, found, same⟩ := Option.map_eq_some_iff.mp parsed
    cases same
    exact ⟨Nat.le_refl 1, parse_primary_fits sound found⟩
  · exact (parse_primary_fits sound parsed).mono (Nat.zero_le 1)

theorem parse_and_loop_fits (sound : Sound content) (fits : left.Fits 2)
    (parsed : parse_and_loop content fuel left input = some (result, rest)) :
    result.Fits 2 := by
  induction fuel generalizing left input with
  | zero =>
    simp only [parse_and_loop, Option.some.injEq, Prod.mk.injEq] at parsed
    exact parsed.1 ▸ fits
  | succ fuel ih =>
    unfold parse_and_loop at parsed
    split at parsed
    · obtain ⟨⟨right, behind⟩, found, next⟩ := Option.bind_eq_some_iff.mp parsed
      have fits' : right.Fits 1 := parse_not_fits sound found
      refine ih ?_ next
      exact ⟨Nat.le_refl 2, fits, fits'⟩
    · cases parsed
      exact fits

theorem parse_and_fits (sound : Sound content)
    (parsed : parse_and content input = some (result, rest)) :
    result.Fits 2 := by
  obtain ⟨⟨left, behind⟩, found, next⟩ := Option.bind_eq_some_iff.mp parsed
  have fits : left.Fits 1 := parse_not_fits sound found
  exact parse_and_loop_fits sound (fits.mono (by omega)) next

theorem parse_or_loop_fits (sound : Sound content) (fits : left.Fits 3)
    (parsed : parse_or_loop content fuel left input = some (result, rest)) :
    result.Fits 3 := by
  induction fuel generalizing left input with
  | zero =>
    simp only [parse_or_loop, Option.some.injEq, Prod.mk.injEq] at parsed
    exact parsed.1 ▸ fits
  | succ fuel ih =>
    unfold parse_or_loop at parsed
    split at parsed
    · obtain ⟨⟨right, behind⟩, found, next⟩ := Option.bind_eq_some_iff.mp parsed
      have fits' : right.Fits 2 := parse_and_fits sound found
      refine ih ?_ next
      exact ⟨Nat.le_refl 3, fits, fits'⟩
    · cases parsed
      exact fits

/-- Every guard the parser builds is a disjunction of conjunctions of possibly
negated primaries. -/
theorem parse_or_fits (depth : Nat) : Sound (parse_or (G := G) depth) := by
  induction depth with
  | zero =>
    intro input result rest parsed
    cases parsed
  | succ depth ih =>
    intro input result rest parsed
    obtain ⟨⟨left, behind⟩, found, next⟩ := Option.bind_eq_some_iff.mp parsed
    have fits : left.Fits 2 := parse_and_fits ih found
    exact parse_or_loop_fits ih (fits.mono (by omega)) next

end Parser

/-- The guard of a row: an expression the parser builds. -/
structure Guard (G : Type*) where
  expression : GuardExpression G
  fits : expression.Fits 3

/-! ### Reading the tokens back -/

/-- `ors || ands`, where nothing may have been read in front. -/
def joinOr (ors : Option (Expression A)) (ands : Expression A) : Expression A :=
  match ors with
  | none => ands
  | some ors => .or ors ands

@[simp] theorem joinOr_none (ands : Expression A) : joinOr none ands = ands :=
  rfl

@[simp] theorem joinOr_some (ors ands : Expression A) :
    joinOr (some ors) ands = .or ors ands := rfl

/-- `ands && next`, where nothing may have been read in front. -/
def joinAnd (ands : Option (Expression A)) (next : Expression A) :
    Expression A :=
  match ands with
  | none => next
  | some ands => .and ands next

/-- A number of negations in front of an operand. -/
def negate : Nat → Expression A → Expression A
  | 0, operand => operand
  | negations + 1, operand => .not (negate negations operand)

mutual

/-- Reads an operand or a group. -/
def readOperand : Token A → Option (Expression A)
  | .operand name => some (.operand name)
  | .group tokens => readTokens none none 0 tokens
  | _ => none

/-- Reads tokens from where an operand is due, behind the alternatives `ors`,
the conjunction `ands` and a number of negations. -/
def readTokens (ors ands : Option (Expression A)) (negations : Nat) :
    List (Token A) → Option (Expression A)
  | [] => none
  | .bang :: rest => readTokens ors ands (negations + 1) rest
  | token :: rest =>
      (readOperand token).bind fun operand =>
        readOperator ors (joinAnd ands (negate negations operand)) rest

/-- Reads tokens from where an operator or the end is due. -/
def readOperator (ors : Option (Expression A)) (ands : Expression A) :
    List (Token A) → Option (Expression A)
  | [] => some (joinOr ors ands)
  | .andAnd :: rest => readTokens ors (some ands) 0 rest
  | .orOr :: rest => readTokens (some (joinOr ors ands)) none 0 rest
  | _ :: _ => none

end

/-- How the compiler reads a boolean expression: `!` binds tightest, then `&&`,
then `||`, and both binary operators associate to the left. -/
def read (tokens : List (Token A)) : Option (Expression A) :=
  readTokens none none 0 tokens

/-- The expression a guard was declared as. -/
def GuardExpression.expression (visit : G → A) :
    GuardExpression G → Expression A
  | .guard name => .operand (visit name)
  | .not inner => .not (inner.expression visit)
  | .group inner => inner.expression visit
  | .and left right => .and (left.expression visit) (right.expression visit)
  | .or left right => .or (left.expression visit) (right.expression visit)

/-- Where the reader stands behind the tokens of a guard: the alternatives it
has completed and the conjunction it is in. -/
def GuardExpression.joined (visit : G → A) (ors ands : Option (Expression A)) :
    GuardExpression G → Option (Expression A) × Expression A
  | .or left right =>
      let (ors, ands) := left.joined visit ors ands
      (some (joinOr ors ands), right.expression visit)
  | .and left right =>
      let (ors, ands) := left.joined visit ors ands
      (ors, .and ands (right.expression visit))
  | inner => (ors, joinAnd ands (inner.expression visit))

section Reading

variable {visit : G → A} {guard : GuardExpression G}
  {ors ands : Option (Expression A)} {rest : List (Token A)}

/-- The tokens of a guard, as the generators print them. -/
abbrev GuardExpression.tokens (visit : G → A) (guard : GuardExpression G) :
    List (Token A) :=
  guard.to_token_stream fun name => .operand (visit name)

theorem joined_of_fits (fits : guard.Fits 2) :
    guard.joined visit ors none = (ors, guard.expression visit) := by
  induction guard with
  | guard name => rfl
  | not inner => rfl
  | group inner => rfl
  | and left right left_ih =>
    simp [GuardExpression.joined, GuardExpression.expression, left_ih fits.2.1]
  | or left right => exact absurd fits.1 (by omega)

theorem joined_of_unary (fits : guard.Fits 1) :
    guard.joined visit ors ands =
      (ors, joinAnd ands (guard.expression visit)) := by
  cases guard with
  | and => exact absurd fits.1 (by omega)
  | or => exact absurd fits.1 (by omega)
  | _ => rfl

/-- Read on its own, a guard is the expression it was declared as. -/
theorem joinOr_joined (fits : guard.Fits 3) :
    joinOr (guard.joined visit none none).1 (guard.joined visit none none).2 =
      guard.expression visit := by
  induction guard with
  | or left right left_ih =>
    simp [GuardExpression.joined, GuardExpression.expression, joinOr,
      ← left_ih fits.2.1]
  | and left right =>
    have lower : (GuardExpression.and left right).Fits 2 :=
      ⟨Nat.le_refl 2, fits.2⟩
    rw [joined_of_fits lower]
    rfl
  | _ => rfl

/-- The tokens of a guard behind `ors` and `ands`, read up to what follows them.
A primary may also stand behind negations. -/
theorem readTokens_guard (guard : GuardExpression G) :
    (guard.Fits 3 → ∀ ors ands rest,
      readTokens ors ands 0 (guard.tokens visit ++ rest) =
        readOperator (guard.joined visit ors ands).1
          (guard.joined visit ors ands).2 rest) ∧
    (guard.Fits 0 → ∀ ors ands negations rest,
      readTokens ors ands negations (guard.tokens visit ++ rest) =
        readOperator ors
          (joinAnd ands (negate negations (guard.expression visit))) rest) := by
  induction guard with
  | guard name =>
    constructor
    · intro fits ors ands rest
      rfl
    · intro fits ors ands negations rest
      rfl
  | not inner ih =>
    constructor
    · intro fits ors ands rest
      exact ih.2 fits.2 ors ands 1 rest
    · intro fits
      exact absurd fits.1 (by omega)
  | group inner ih =>
    have content (fits : inner.Fits 3) :
        readTokens none none 0 (inner.tokens visit) =
          some (inner.expression visit) := by
      have reads := ih.1 fits none none []
      rw [List.append_nil] at reads
      rw [reads, readOperator, joinOr_joined fits]
    have reads (fits : inner.Fits 3) (ors ands negations rest) :
        readTokens ors ands negations
            ((GuardExpression.group inner).tokens visit ++ rest) =
          readOperator ors
            (joinAnd ands (negate negations (inner.expression visit))) rest := by
      simp [GuardExpression.to_token_stream, readTokens, readOperand,
        content fits]
    constructor
    · intro fits ors ands rest
      exact reads fits ors ands 0 rest
    · exact reads
  | and left right left_ih right_ih =>
    constructor
    · intro fits ors ands rest
      have first : left.Fits 3 := fits.2.1.mono (by omega)
      have second : right.Fits 3 := fits.2.2.mono (by omega)
      simp only [GuardExpression.to_token_stream, List.append_assoc,
        List.cons_append, left_ih.1 first, readOperator, right_ih.1 second,
        GuardExpression.joined, joined_of_unary fits.2.2, joinAnd]
    · intro fits
      exact absurd fits.1 (by omega)
  | or left right left_ih right_ih =>
    constructor
    · intro fits ors ands rest
      have second : right.Fits 3 := fits.2.2.mono (by omega)
      simp only [GuardExpression.to_token_stream, List.append_assoc,
        List.cons_append, left_ih.1 fits.2.1, readOperator, right_ih.1 second,
        GuardExpression.joined, joined_of_fits fits.2.2]
    · intro fits
      exact absurd fits.1 (by omega)

end Reading

/-! ### The condition of a row -/

/-- The operands of a row's condition. -/
inductive Operand (G : Type*) where
  | handled
  | candidate
  | guard (name : G)
deriving DecidableEq

/-- `!handled && candidate`, with the guard spliced in behind it. -/
def condition_tokens (guard : Option (Guard G)) : List (Token (Operand G)) :=
  [.bang, .operand .handled, .andAnd, .operand .candidate] ++
    match guard with
    | none => []
    | some guard => .andAnd :: guard.expression.tokens .guard

/-- What the operands of a condition evaluate to. -/
def Operand.value (handled candidate : Bool) (values : G → Except ε Bool) :
    Operand G → Except ε Bool
  | .handled => .ok handled
  | .candidate => .ok candidate
  | .guard name => values name

/-- The condition a row is run under, as the generated code checks it. -/
def condition (handled candidate : Bool) (values : G → Except ε Bool)
    (guard : Option (Guard G)) : Except ε Bool :=
  match read (condition_tokens guard) with
  | some expression => expression.eval (Operand.value handled candidate values)
  | none => .ok false

section Condition

variable {handled candidate : Bool} {values : G → Except ε Bool}

@[simp] theorem condition_none :
    condition handled candidate values none = .ok (!handled && candidate) := by
  cases handled <;> cases candidate <;> rfl

theorem eval_expression (guard : GuardExpression G) :
    (guard.expression .guard).eval (Operand.value handled candidate values) =
      guard.eval values := by
  induction guard with
  | guard name => rfl
  | not inner ih => simp [GuardExpression.expression, Expression.eval,
      GuardExpression.eval, ih]
  | group inner ih => exact ih
  | and left right left_ih right_ih => simp [GuardExpression.expression,
      Expression.eval, GuardExpression.eval, left_ih, right_ih]
  | or left right left_ih right_ih => simp [GuardExpression.expression,
      Expression.eval, GuardExpression.eval, left_ih, right_ih]

/-- `!handled && candidate`. -/
private def front : Expression (Operand G) :=
  .and (.not (.operand .handled)) (.operand .candidate)

private theorem eval_front :
    front.eval (Operand.value handled candidate values) =
      .ok (!handled && candidate) := by
  cases handled <;> cases candidate <;> rfl

private theorem joined_front {guard : GuardExpression G}
    (fits : guard.Fits 2) :
    ∃ ands, guard.joined .guard none (some front) = (none, ands) ∧
      ands.eval (Operand.value handled candidate values) =
        both (.ok (!handled && candidate)) (guard.eval values) := by
  induction guard with
  | and left right left_ih =>
    obtain ⟨ands, reads, value⟩ := left_ih fits.2.1
    refine ⟨.and ands (right.expression .guard), ?_, ?_⟩
    · simp [GuardExpression.joined, reads]
    · simp only [Expression.eval, value, eval_expression, both_assoc,
        GuardExpression.eval]
  | or => exact absurd fits.1 (by omega)
  | _ =>
    refine ⟨_, rfl, ?_⟩
    simp only [Expression.eval, joinAnd, eval_front, eval_expression]

/-- What a guard comes to behind `!handled && candidate`: its first alternative
is bound to the conjunction in front, and the others are not. -/
private theorem eval_joined {guard : GuardExpression G}
    (fits : guard.Fits 3) :
    (joinOr (guard.joined .guard none (some front)).1
        (guard.joined .guard none (some front)).2).eval
          (Operand.value handled candidate values) =
      if !handled && candidate then guard.eval values
      else guard.alternatives values := by
  induction guard with
  | or left right left_ih =>
    simp only [GuardExpression.joined, joinOr_some, Expression.eval,
      left_ih fits.2.1, eval_expression, GuardExpression.eval,
      GuardExpression.alternatives]
    cases !handled && candidate <;> rfl
  | _ =>
    have lower := fits.cases.resolve_left (by simp)
    obtain ⟨ands, reads, value⟩ := joined_front lower
    rw [reads, joinOr_none, value, GuardExpression.alternatives_of_fits lower]
    cases !handled && candidate <;> rfl

/-- The condition is the declared guard where the row may still run. Where it
may not, what is left of the guard is its alternatives behind the first. -/
theorem condition_some (guard : Guard G) :
    condition handled candidate values (some guard) =
      if !handled && candidate then guard.expression.eval values
      else guard.expression.alternatives values := by
  have reads : read (condition_tokens (some guard)) =
      some (joinOr (guard.expression.joined .guard none (some front)).1
        (guard.expression.joined .guard none (some front)).2) := by
    have behind := (@readTokens_guard _ _ .guard guard.expression).1 guard.fits
      none (some front) []
    rw [List.append_nil] at behind
    exact behind
  rw [condition, reads]
  exact eval_joined guard.fits

end Condition

end SmlRs.Macros
