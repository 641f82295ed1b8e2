/-
Module: SmlRs.Lib.Parse
Purpose: Parsers that read a front off a list of token trees, where what is inside of
  a group is read by a parser of its own, and what such a parser takes.
Trusted boundary: none
Main exports: Parse, Parse.within, Parse.whole, Takes, takes_bind, takes_within,
  whole_eq_ok
-/
import Mathlib.Data.List.Basic

namespace SmlRs.Lib

/-- What is read: a value, the input behind it, and whether tokens were left over in
a group. -/
structure Reading (τ α : Type) where
  value : α
  rest : List τ
  unexpected : Bool := false

/-- A parser. Tokens that are left over in a group do not stop it. -/
def Parse (τ ε α : Type) : Type := List τ → Except ε (Reading τ α)

variable {τ ε α β : Type}

namespace Parse

instance : Monad (Parse τ ε) where
  pure value := fun input => .ok { value := value, rest := input }
  bind parse next := fun input =>
    match parse input with
    | .error error => .error error
    | .ok first =>
        match next first.value first.rest with
        | .error error => .error error
        | .ok second =>
            .ok { second with unexpected := first.unexpected || second.unexpected }

def fail (error : ε) : Parse τ ε α := fun _ => .error error

/-- What stands ahead, which is not read. -/
def look (view : List τ → α) : Parse τ ε α := fun input =>
  .ok { value := view input, rest := input }

def is_empty : Parse τ ε Bool := look List.isEmpty

/-- Whether a form stands ahead. -/
def peek (front : List τ → Option (α × List τ)) : Parse τ ε Bool :=
  look fun input => (front input).isSome

/-- The front of the input, in a form that has to be there. -/
def expect (front : List τ → Option (α × List τ)) (error : ε) : Parse τ ε α :=
  fun input =>
    match front input with
    | some (value, rest) => .ok { value := value, rest := rest }
    | none => .error error

/-- The front of the input, in a form that may be there. -/
def accept (front : List τ → Option (α × List τ)) : Parse τ ε Bool := fun input =>
  match front input with
  | some (_, rest) => .ok { value := true, rest := rest }
  | none => .ok { value := false, rest := input }

/-- The group in front of the input, whose content is read by a parser of its own. -/
def within (group : List τ → Option (List τ × List τ)) (error : ε)
    (parse : Parse τ ε α) : Parse τ ε α := fun input =>
  match group input with
  | none => .error error
  | some (content, rest) =>
      match parse content with
      | .error error => .error error
      | .ok inner =>
          .ok
            { value := inner.value
              rest := rest
              unexpected := inner.unexpected || !inner.rest.isEmpty }

/-- A parser on the whole of an input, in which no token may be left over. -/
def whole (parse : Parse τ ε α) (leftover : ε) (input : List τ) : Except ε α :=
  match parse input with
  | .error error => .error error
  | .ok read =>
      if read.unexpected || !read.rest.isEmpty then .error leftover else .ok read.value

/-! ### What is taken -/

/-- A parser reads a value and leaves a rest, and all groups are read to their end. -/
def Takes (parse : Parse τ ε α) (input : List τ) (value : α) (rest : List τ) : Prop :=
  parse input = .ok { value := value, rest := rest }

section Takes

variable {parse : Parse τ ε α} {input rest : List τ} {value : α}

theorem Takes.unique {other : α} {behind : List τ} (takes : parse.Takes input value rest)
    (again : parse.Takes input other behind) : value = other ∧ rest = behind := by
  cases takes.symm.trans again
  exact ⟨rfl, rfl⟩

@[simp] theorem takes_pure {own : α} :
    (pure own : Parse τ ε α).Takes input value rest ↔ value = own ∧ rest = input := by
  constructor
  · intro takes
    cases takes
    exact ⟨rfl, rfl⟩
  · intro same
    obtain ⟨rfl, rfl⟩ := same
    rfl

@[simp] theorem takes_fail {error : ε} :
    ¬ (fail error : Parse τ ε α).Takes input value rest := by
  intro takes
  cases takes

@[simp] theorem takes_look {view : List τ → α} :
    (look view : Parse τ ε α).Takes input value rest ↔
      value = view input ∧ rest = input := by
  constructor
  · intro takes
    cases takes
    exact ⟨rfl, rfl⟩
  · intro same
    obtain ⟨rfl, rfl⟩ := same
    rfl

@[simp] theorem takes_is_empty {empty : Bool} :
    (is_empty : Parse τ ε Bool).Takes input empty rest ↔
      empty = input.isEmpty ∧ rest = input :=
  takes_look

@[simp] theorem takes_peek {front : List τ → Option (β × List τ)} {found : Bool} :
    (peek front : Parse τ ε Bool).Takes input found rest ↔
      found = (front input).isSome ∧ rest = input :=
  takes_look

theorem takes_expect {front : List τ → Option (α × List τ)} {error : ε} :
    (expect front error).Takes input value rest ↔ front input = some (value, rest) := by
  unfold Takes expect
  cases found : front input with
  | none => simp
  | some both => simp [Prod.ext_iff]

theorem takes_accept {front : List τ → Option (α × List τ)} {found : Bool} :
    (accept front : Parse τ ε Bool).Takes input found rest ↔
      (found = true ∧ ∃ value, front input = some (value, rest)) ∨
        (found = false ∧ front input = none ∧ rest = input) := by
  unfold Takes accept
  cases front input with
  | none => simp [eq_comm]
  | some both =>
    obtain ⟨value, behind⟩ := both
    simp [eq_comm]

theorem bind_eq {next : α → Parse τ ε β} :
    (parse >>= next) input =
      match parse input with
      | .error error => .error error
      | .ok first =>
          match next first.value first.rest with
          | .error error => .error error
          | .ok second =>
              .ok { second with unexpected := first.unexpected || second.unexpected } :=
  rfl

/-- One parser behind another takes what both of them take. -/
theorem takes_bind {next : α → Parse τ ε β} {last : β} :
    (parse >>= next).Takes input last rest ↔
      ∃ value mid, parse.Takes input value mid ∧ (next value).Takes mid last rest := by
  unfold Takes
  rw [bind_eq]
  constructor
  · intro takes
    split at takes
    · cases takes
    · rename_i first found
      split at takes
      · cases takes
      · rename_i second further
        obtain ⟨value, mid, left⟩ := first
        obtain ⟨last', behind, left'⟩ := second
        simp only [Except.ok.injEq, Reading.mk.injEq, Bool.or_eq_false_iff] at takes
        obtain ⟨rfl, rfl, rfl, rfl⟩ := takes
        exact ⟨value, mid, found, further⟩
  · intro both
    obtain ⟨value, mid, found, further⟩ := both
    simp only [found, further, Bool.or_false]

/-- A group is taken where its content is taken to its end. -/
theorem takes_within {group : List τ → Option (List τ × List τ)} {error : ε} :
    (within group error parse).Takes input value rest ↔
      ∃ content, group input = some (content, rest) ∧ parse.Takes content value [] := by
  unfold Takes within
  constructor
  · intro takes
    split at takes
    · cases takes
    · rename_i content behind found
      split at takes
      · cases takes
      · rename_i inner read
        obtain ⟨own, left, unexpected⟩ := inner
        simp only [Except.ok.injEq, Reading.mk.injEq, Bool.or_eq_false_iff,
          Bool.not_eq_false', List.isEmpty_iff] at takes
        obtain ⟨rfl, rfl, rfl, rfl⟩ := takes
        exact ⟨content, found, read⟩
  · intro both
    obtain ⟨content, found, read⟩ := both
    simp [found, read]

/-- A parser accepts a whole input if it takes it to its end. -/
theorem whole_eq_ok {leftover : ε} :
    parse.whole leftover input = .ok value ↔ parse.Takes input value [] := by
  unfold Takes whole
  constructor
  · intro accepted
    split at accepted
    · cases accepted
    · rename_i read found
      obtain ⟨own, left, unexpected⟩ := read
      split at accepted
      · cases accepted
      · rename_i used
        simp only [Bool.or_eq_true, Bool.not_eq_true', not_or, Bool.not_eq_true,
          Bool.not_eq_false, List.isEmpty_iff] at used
        obtain ⟨rfl, rfl⟩ := used
        cases accepted
        exact found
  · intro takes
    simp [takes]

theorem takes_peek_bind {front : List τ → Option (β × List τ)}
    {next : Bool → Parse τ ε α} :
    (peek front >>= next).Takes input value rest ↔
      (next (front input).isSome).Takes input value rest := by
  rw [takes_bind]
  simp

theorem takes_ite {condition : Prop} [Decidable condition] {other : Parse τ ε α} :
    (if condition then parse else other).Takes input value rest ↔
      (condition ∧ parse.Takes input value rest) ∨
        (¬ condition ∧ other.Takes input value rest) := by
  by_cases chosen : condition <;> simp [chosen]

end Takes

end Parse

end SmlRs.Lib
