/-
Module: SmlRs.Lib.Couple
Purpose: Rules for two programs that end alike when they start in related states.
Trusted boundary: none
Main exports: Coupled, Couples, Silent, Couples.seq, Couples.ahead, Couples.forM
-/
import SmlRs.Lib.Effect

namespace SmlRs.Lib

/-!
Unlike `Agrees`, the rules here let the states of the two programs differ: a
relation is kept step by step, and one program may take a step that the other one
leaves out.
-/

universe u

variable {σ τ ε α β : Type u}

/-- Two runs that end alike: with one value or one error, in related states. -/
inductive Coupled (rel : σ → τ → Prop) :
    EStateM.Result ε σ α → EStateM.Result ε τ α → Prop where
  | ok {value : α} {s : σ} {t : τ} (related : rel s t) :
      Coupled rel (.ok value s) (.ok value t)
  | error {error : ε} {s : σ} {t : τ} (related : rel s t) :
      Coupled rel (.error error s) (.error error t)

/-- Started in related states, the two programs end alike. -/
def Couples (rel : σ → τ → Prop) (first : EStateM ε σ α)
    (second : EStateM ε τ α) : Prop :=
  ∀ s t, rel s t → Coupled rel (first s) (second t)

/-- The program returns, and the other state stays related to its own. -/
def Silent (rel : σ → τ → Prop) (program : EStateM ε σ α) : Prop :=
  ∀ s t, rel s t → ∃ value s', program s = .ok value s' ∧ rel s' t

namespace Silent

variable {rel : σ → τ → Prop}

theorem returns (value : α) : Silent rel (pure value : EStateM ε σ α) :=
  fun s _ related => ⟨value, s, rfl, related⟩

theorem modifies {change : σ → σ} (kept : ∀ s t, rel s t → rel (change s) t) :
    Silent rel (modify change : EStateM ε σ PUnit) :=
  fun s t related => ⟨⟨⟩, change s, rfl, kept s t related⟩

theorem seq {first : EStateM ε σ β} {next : β → EStateM ε σ α}
    (head : Silent rel first) (tail : ∀ value, Silent rel (next value)) :
    Silent rel (first >>= next) := by
  intro s t related
  obtain ⟨value, s', run, kept⟩ := head s t related
  rw [bind_run, run]
  exact tail value s' t kept

theorem forM {item : Type u} {step : item → EStateM ε σ PUnit}
    {items : List item} (each : ∀ one ∈ items, Silent rel (step one)) :
    Silent rel (items.forM step) := by
  induction items with
  | nil => exact returns PUnit.unit
  | cons one rest ih =>
    apply seq (each one (by simp))
    intro _
    exact ih fun other among => each other (by simp [among])

end Silent

namespace Couples

variable {rel : σ → τ → Prop}

theorem returns (value : α) :
    Couples rel (pure value : EStateM ε σ α) (pure value) :=
  fun _ _ related => .ok related

theorem throws (error : ε) :
    Couples rel (throw error : EStateM ε σ α) (throw error) :=
  fun _ _ related => .error related

theorem seq {first : EStateM ε σ β} {second : EStateM ε τ β}
    {next : β → EStateM ε σ α} {next' : β → EStateM ε τ α}
    (head : Couples rel first second)
    (tail : ∀ value, Couples rel (next value) (next' value)) :
    Couples rel (first >>= next) (second >>= next') := by
  intro s t related
  have ends := head s t related
  rw [bind_run, bind_run]
  generalize first s = run at ends ⊢
  generalize second t = run' at ends ⊢
  cases ends with
  | ok ended => exact tail _ _ _ ended
  | error ended => exact .error ended

/-- Programs that begin by reading the state. -/
theorem reads {next : σ → EStateM ε σ α} {next' : τ → EStateM ε τ α}
    (each : ∀ s t, rel s t → Coupled rel (next s s) (next' t t)) :
    Couples rel (get >>= next) (get >>= next') :=
  each

/-- A step that both programs take. -/
theorem modifies {change : σ → σ} {change' : τ → τ}
    (kept : ∀ s t, rel s t → rel (change s) (change' t)) :
    Couples rel (modify change : EStateM ε σ PUnit) (modify change') :=
  fun s t related => .ok (kept s t related)

/-- A part that only the first program has. -/
theorem ahead {first : EStateM ε σ β} {next : β → EStateM ε σ α}
    {second : EStateM ε τ α} (head : Silent rel first)
    (tail : ∀ value, Couples rel (next value) second) :
    Couples rel (first >>= next) second := by
  intro s t related
  obtain ⟨value, s', run, kept⟩ := head s t related
  rw [bind_run, run]
  exact tail value s' t kept

theorem forM {item : Type u} {step : item → EStateM ε σ PUnit}
    {step' : item → EStateM ε τ PUnit} {items : List item}
    (each : ∀ one ∈ items, Couples rel (step one) (step' one)) :
    Couples rel (items.forM step) (items.forM step') := by
  induction items with
  | nil => exact returns PUnit.unit
  | cons one rest ih =>
    apply seq (each one (by simp))
    intro _
    exact ih fun other among => each other (by simp [among])

theorem foldlM {item : Type u} {step : β → item → EStateM ε σ β}
    {step' : β → item → EStateM ε τ β} {items : List item}
    (each : ∀ value, ∀ one ∈ items, Couples rel (step value one) (step' value one))
    (value : β) : Couples rel (items.foldlM step value) (items.foldlM step' value) := by
  induction items generalizing value with
  | nil => exact returns value
  | cons one rest ih =>
    rw [List.foldlM_cons, List.foldlM_cons]
    apply seq (each value one (by simp))
    exact ih fun value other among => each value other (by simp [among])

end Couples

section Same

variable {first second : EStateM ε σ α}

theorem Couples.of_eq (same : first = second) : Couples Eq first second := by
  subst same
  rintro s _ rfl
  cases first s with
  | ok value s' => exact .ok rfl
  | error error s' => exact .error rfl

/-- Programs that end alike in the same state are the same. -/
theorem Couples.eq (couples : Couples Eq first second) : first = second := by
  funext s
  have ends := couples s s rfl
  generalize first s = run at ends ⊢
  generalize second s = run' at ends ⊢
  cases ends with
  | ok same => rw [same]
  | error same => rw [same]

end Same

/-- A loop over the lists made of the items of a list. -/
theorem forM_flatMap {item other : Type u} (items : List item)
    (lists : item → List other) (step : other → EStateM ε σ PUnit) :
    (items.flatMap lists).forM step =
      items.forM fun one => (lists one).forM step := by
  induction items with
  | nil => rfl
  | cons one rest ih =>
    rw [List.flatMap_cons]
    apply (List.forM_append).trans
    exact congrArg (fun tail => (lists one).forM step >>= fun _ => tail) ih

end SmlRs.Lib
