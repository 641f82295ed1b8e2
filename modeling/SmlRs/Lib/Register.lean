/-
Module: SmlRs.Lib.Register
Purpose: Passes that keep the first value of each key and stop at an entry with
  another value than the one that is kept.
Trusted boundary: none
Main exports: Passes, passes_bind, foldlM_flatMap, Registers, Fits, Alike,
  Registers.passes_iff
-/
import Mathlib.Logic.Function.Basic

namespace SmlRs.Lib

universe u

variable {ε α β : Type*}

/-! ### Checks that pass -/

/-- A check returns, and not an error. -/
def Passes {σ : Type*} (check : Except ε σ) : Prop := ∃ result, check = .ok result

section Passes

variable {σ τ : Type u}

@[simp] theorem passes_pure {result : σ} : Passes (pure result : Except ε σ) :=
  ⟨result, rfl⟩

@[simp] theorem not_passes_error {error : ε} : ¬Passes (.error error : Except ε σ) :=
  nofun

theorem passes_bind {first : Except ε σ} {next : σ → Except ε τ} :
    Passes (first >>= next) ↔
      ∃ result, first = .ok result ∧ Passes (next result) := by
  cases first with
  | error error =>
    constructor
    · intro passes
      exact absurd passes not_passes_error
    · intro ⟨_, returns, _⟩
      cases returns
  | ok result =>
    constructor
    · intro passes
      exact ⟨result, rfl, passes⟩
    · intro ⟨_, returns, passes⟩
      cases returns
      exact passes

theorem passes_unit {check : Except ε PUnit} : Passes check ↔ check = .ok ⟨⟩ := by
  constructor
  · intro ⟨_, returns⟩
    exact returns
  · intro returns
    exact ⟨_, returns⟩

/-- A check whose result is dropped. -/
theorem passes_drop {first : Except ε σ} {result : τ} :
    Passes (first >>= fun _ => pure result) ↔ Passes first := by
  rw [passes_bind]
  constructor
  · intro ⟨state, returns, _⟩
    exact ⟨state, returns⟩
  · intro ⟨state, returns⟩
    exact ⟨state, returns, passes_pure⟩

/-- A check behind another one that returns nothing. -/
theorem passes_seq {first : Except ε PUnit} {second : Except ε τ} :
    Passes (first >>= fun _ => second) ↔ Passes first ∧ Passes second := by
  rw [passes_bind]
  constructor
  · intro ⟨result, returns, passes⟩
    exact ⟨⟨result, returns⟩, passes⟩
  · intro ⟨⟨result, returns⟩, passes⟩
    exact ⟨result, returns, passes⟩

/-- A pass over the entries of all items is a pass over the items. -/
theorem foldlM_flatMap {entries : α → List β} {step : σ → β → Except ε σ}
    {items : List α} (start : σ) :
    (items.flatMap entries).foldlM step start =
      items.foldlM (fun state item => (entries item).foldlM step state) start := by
  induction items generalizing start with
  | nil => rfl
  | cons item rest ih =>
    rw [List.flatMap_cons, List.foldlM_append, List.foldlM_cons]
    apply bind_congr
    intro state
    exact ih state

end Passes

/-! ### Passes that register -/

section Registers

variable {κ ν : Type*} {σ : Type u} [DecidableEq κ]

/-- A step registers: the value of a new key is kept, an entry with the value that is
kept changes nothing, and any other entry is an error. -/
structure Registers (key : α → κ) (value : α → ν) (kept : σ → κ → Option ν)
    (step : σ → α → Except ε σ) : Prop where
  fresh : ∀ {state item}, kept state (key item) = none →
    ∃ state', step state item = .ok state' ∧
      kept state' = Function.update (kept state) (key item) (some (value item))
  again : ∀ {state item}, kept state (key item) = some (value item) →
    step state item = .ok state
  other : ∀ {state item seen}, kept state (key item) = some seen →
    seen ≠ value item → ∃ error, step state item = .error error

/-- The items have the values that are kept for their keys. -/
def Fits (key : α → κ) (value : α → ν) (register : κ → Option ν) (items : List α) :
    Prop :=
  ∀ item ∈ items, ∀ seen, register (key item) = some seen → seen = value item

/-- Items with one key have one value. -/
def Alike (key : α → κ) (value : α → ν) (items : List α) : Prop :=
  ∀ item ∈ items, ∀ other ∈ items, key item = key other → value item = value other

variable {key : α → κ} {value : α → ν} {register : κ → Option ν} {item : α}
  {rest : List α}

omit [DecidableEq κ] in
theorem fits_empty {items : List α} : Fits key value (fun _ => none) items := nofun

omit [DecidableEq κ] in
theorem alike_cons :
    Alike key value (item :: rest) ↔
      (∀ other ∈ rest, key item = key other → value item = value other) ∧
        Alike key value rest := by
  constructor
  · intro alike
    constructor
    · intro other among
      exact alike item List.mem_cons_self other (List.mem_cons_of_mem _ among)
    · intro first among second also
      exact alike first (List.mem_cons_of_mem _ among) second
        (List.mem_cons_of_mem _ also)
  · intro ⟨same, alike⟩ first among second also equal
    cases among with
    | head =>
      cases also with
      | head => rfl
      | tail _ also => exact same second also equal
    | tail _ among =>
      cases also with
      | head => exact (same first among equal.symm).symm
      | tail _ also => exact alike first among second also equal

omit [DecidableEq κ] in
/-- Where the values stand for names, items with one value for each key are items of
which different names have different keys. -/
theorem alike_iff_apart {ω : Type*} {name : α → ω} {image : ω → ν} {items : List α}
    (injective : Function.Injective image)
    (named : ∀ item ∈ items, value item = image (name item)) :
    Alike key value items ↔
      ∀ first ∈ items, ∀ second ∈ items, name first ≠ name second →
        key first ≠ key second := by
  constructor
  · intro alike first among second also differ same
    apply differ
    apply injective
    rw [← named first among, ← named second also]
    exact alike first among second also same
  · intro apart first among second also same
    rw [named first among, named second also]
    apply congrArg
    by_contra differ
    exact apart first among second also differ same

omit [DecidableEq κ] in
theorem fits_cons :
    Fits key value register (item :: rest) ↔
      (∀ seen, register (key item) = some seen → seen = value item) ∧
        Fits key value register rest :=
  List.forall_mem_cons

/-- What is kept for a new key fits the items that are like its own. -/
theorem fits_update (new : register (key item) = none) :
    Fits key value (Function.update register (key item) (some (value item))) rest ↔
      Fits key value register rest ∧
        ∀ other ∈ rest, key item = key other → value item = value other := by
  constructor
  · intro fits
    constructor
    · intro other among seen registered
      apply fits other among
      rw [Function.update_of_ne]
      · exact registered
      · intro equal
        rw [equal, new] at registered
        cases registered
    · intro other among equal
      apply fits other among
      rw [← equal, Function.update_self]
  · intro ⟨fits, same⟩ other among seen registered
    by_cases equal : key other = key item
    · rw [equal, Function.update_self] at registered
      rw [← Option.some.inj registered]
      exact same other among equal.symm
    · rw [Function.update_of_ne equal] at registered
      exact fits other among seen registered

/-- What an item with a new key adds. -/
theorem fits_alike_fresh (new : register (key item) = none) :
    Fits key value (Function.update register (key item) (some (value item))) rest ∧
        Alike key value rest ↔
      Fits key value register (item :: rest) ∧ Alike key value (item :: rest) := by
  rw [fits_update new, fits_cons, alike_cons, new]
  constructor
  · intro ⟨⟨fits, same⟩, alike⟩
    exact ⟨⟨nofun, fits⟩, same, alike⟩
  · intro ⟨⟨_, fits⟩, same, alike⟩
    exact ⟨⟨fits, same⟩, alike⟩

omit [DecidableEq κ] in
/-- What an item with the value that is kept adds. -/
theorem fits_alike_again (kept : register (key item) = some (value item)) :
    Fits key value register rest ∧ Alike key value rest ↔
      Fits key value register (item :: rest) ∧ Alike key value (item :: rest) := by
  rw [fits_cons, alike_cons]
  constructor
  · intro ⟨fits, alike⟩
    refine ⟨⟨?_, fits⟩, ?_, alike⟩
    · intro seen registered
      rw [kept] at registered
      exact (Option.some.inj registered).symm
    · intro other among equal
      apply fits other among
      rw [← equal, kept]
  · intro ⟨⟨_, fits⟩, _, alike⟩
    exact ⟨fits, alike⟩

variable {kept : σ → κ → Option ν} {step : σ → α → Except ε σ}

/-- A pass that registers returns exactly when the items have the values that are
kept at its start, and one value for each key. -/
theorem Registers.passes_iff (registers : Registers key value kept step)
    {items : List α} (start : σ) :
    Passes (items.foldlM step start) ↔
      Fits key value (kept start) items ∧ Alike key value items := by
  induction items generalizing start with
  | nil =>
    constructor
    · intro _
      exact ⟨nofun, nofun⟩
    · intro _
      exact passes_pure
  | cons item rest ih =>
    rw [List.foldlM_cons, passes_bind]
    cases seen : kept start (key item) with
    | none =>
      obtain ⟨state, returns, keeps⟩ := registers.fresh seen
      rw [returns, ← fits_alike_fresh seen, ← keeps, ← ih state]
      simp
    | some previous =>
      by_cases same : previous = value item
      · rw [same] at seen
        rw [registers.again seen, ← fits_alike_again seen, ← ih start]
        simp
      · constructor
        · intro ⟨state, returns, _⟩
          obtain ⟨error, stops⟩ := registers.other seen same
          rw [stops] at returns
          cases returns
        · intro ⟨fits, _⟩
          exact absurd (fits item List.mem_cons_self previous seen) same

end Registers

end SmlRs.Lib
