/-
Module: SmlRs.Lib.Agree
Purpose: Rules for two programs that do the same as long as nothing else than
  what is allowed is recorded.
Trusted boundary: none
Main exports: Regime, Agrees, Agrees.seq, Agrees.foldlM, AgreesAt.congr
-/
import SmlRs.Lib.Effect

namespace SmlRs.Lib

/-!
The first program runs, and its record only grows.  The second one is compared
with it on runs that start in a fine state and record nothing that is not clear.
-/

universe u

variable {σ ε δ α β κ : Type u}

/-- What two programs are compared under. -/
structure Regime (σ κ : Type u) where
  /-- What has been recorded, newest first. -/
  record : σ → List κ
  fine : σ → Prop
  clear : κ → Prop

/-- Nothing has been recorded that is not clear. -/
def Regime.Clear (regime : Regime σ κ) (s : σ) : Prop :=
  ∀ entry ∈ regime.record s, regime.clear entry

/-- The record of the first program grows from a state on, and where the state is
fine and the record stays clear, the second program does the same and leaves a
fine state. -/
structure AgreesAt (regime : Regime σ κ) (first second : EStateM ε σ α) (s : σ) :
    Prop where
  grows : regime.record s <:+ regime.record (final first s)
  same : regime.fine s → regime.Clear (final first s) →
    second s = first s ∧ regime.fine (final first s)

def Agrees (regime : Regime σ κ) (first second : EStateM ε σ α) : Prop :=
  ∀ s, AgreesAt regime first second s

variable {regime : Regime σ κ}

theorem Regime.Clear.of_suffix {s s' : σ} (clear : regime.Clear s')
    (grown : regime.record s <:+ regime.record s') : regime.Clear s :=
  fun entry among => clear entry (grown.subset among)

namespace AgreesAt

variable {first second third : EStateM ε σ α} {s : σ}

/-- A program agrees with itself where it leaves a fine state. -/
theorem itself (grows : regime.record s <:+ regime.record (final first s))
    (fine : regime.fine s → regime.Clear (final first s) →
      regime.fine (final first s)) : AgreesAt regime first first s :=
  ⟨grows, fun start clear => ⟨rfl, fine start clear⟩⟩

theorem returns (value : α) :
    AgreesAt regime (pure value : EStateM ε σ α) (pure value) s :=
  itself (List.suffix_refl _) fun start _ => start

theorem throws (error : ε) :
    AgreesAt regime (throw error : EStateM ε σ α) (throw error) s :=
  itself (List.suffix_refl _) fun start _ => start

/-- The second program may be exchanged for one that is equal to it in a fine
state with a clear record. -/
theorem congr (agrees : AgreesAt regime first second s)
    (equal : regime.fine s → regime.Clear s → third s = second s) :
    AgreesAt regime first third s where
  grows := agrees.grows
  same start clear := by
    obtain ⟨same, fine⟩ := agrees.same start clear
    exact ⟨(equal start (clear.of_suffix agrees.grows)).trans same, fine⟩

/-- It may be supposed that the state is fine and its record clear. -/
theorem supposing (grows : regime.record s <:+ regime.record (final first s))
    (agrees : regime.fine s → regime.Clear s → AgreesAt regime first second s) :
    AgreesAt regime first second s where
  grows := grows
  same start clear :=
    (agrees start (clear.of_suffix grows)).same start clear

theorem of_eq {program program' : EStateM ε σ α} {s' : σ}
    (agrees : AgreesAt regime first second s')
    (grown : regime.record s <:+ regime.record s')
    (fine : regime.fine s → regime.Clear s' → regime.fine s')
    (run : program s = first s') (run' : program' s = second s') :
    AgreesAt regime program program' s := by
  have ends : final program s = final first s' := by
    unfold final
    rw [run]
  constructor
  · rw [ends]
    exact grown.trans agrees.grows
  · intro start clear
    rw [ends] at clear ⊢
    rw [run, run']
    exact agrees.same (fine start (clear.of_suffix agrees.grows)) clear

end AgreesAt

section Sequences

variable {first first' : EStateM ε σ β} {next next' : β → EStateM ε σ α} {s : σ}

/-- A program that starts with one that agrees from this state on. -/
theorem AgreesAt.seq (head : AgreesAt regime first first' s)
    (tail : ∀ value, Agrees regime (next value) (next' value)) :
    AgreesAt regime (first >>= next) (first' >>= next') s := by
  have grows := head.grows
  have same := head.same
  unfold final at grows same
  constructor
  · unfold final
    rw [bind_run]
    cases run : first s with
    | ok value mid =>
      rw [run] at grows
      exact grows.trans (tail value mid).grows
    | error error mid =>
      rw [run] at grows
      exact grows
  · unfold final
    rw [bind_run, bind_run]
    intro start clear
    cases run : first s with
    | ok value mid =>
      rw [run] at clear same
      obtain ⟨equal, fine⟩ :=
        same start (clear.of_suffix (tail value mid).grows)
      rw [equal]
      exact (tail value mid).same fine clear
    | error error mid =>
      rw [run] at clear same
      obtain ⟨equal, fine⟩ := same start clear
      rw [equal]
      exact ⟨rfl, fine⟩

theorem Agrees.seq (head : Agrees regime first first')
    (tail : ∀ value, Agrees regime (next value) (next' value)) :
    Agrees regime (first >>= next) (first' >>= next') :=
  fun s => (head s).seq tail

/-- Programs that begin by reading the state. -/
theorem Agrees.reads {next next' : σ → EStateM ε σ α}
    (each : ∀ s, AgreesAt regime (next s) (next' s) s) :
    Agrees regime (get >>= next) (get >>= next') := by
  intro s
  apply (each s).of_eq (List.suffix_refl _) (fun start _ => start)
  · rfl
  · rfl

end Sequences

namespace Agrees

variable {first second : EStateM ε σ α}

theorem returns (value : α) :
    Agrees regime (pure value : EStateM ε σ α) (pure value) :=
  fun _ => .returns value

theorem throws (error : ε) :
    Agrees regime (throw error : EStateM ε σ α) (throw error) :=
  fun _ => .throws error

/-- A step that both programs take. -/
theorem modifies {change : σ → σ}
    (grows : ∀ s, regime.record s <:+ regime.record (change s))
    (fine : ∀ s, regime.fine s → regime.Clear (change s) → regime.fine (change s)) :
    Agrees regime (modify change : EStateM ε σ PUnit) (modify change) :=
  fun s => .itself (grows s) (fine s)

theorem attempt (agrees : Agrees regime first second) :
    Agrees regime (Lib.attempt first : EStateM δ σ (Except ε α))
      (Lib.attempt second) := by
  intro s
  constructor
  · rw [final_attempt]
    exact (agrees s).grows
  · rw [final_attempt]
    intro start clear
    obtain ⟨equal, fine⟩ := (agrees s).same start clear
    refine ⟨?_, fine⟩
    unfold Lib.attempt
    rw [equal]

/-- A step that both programs take when they fail. -/
theorem marked {mark : ε → σ → σ} (agrees : Agrees regime first second)
    (grows : ∀ error s, regime.record s <:+ regime.record (mark error s))
    (fine : ∀ error s, regime.fine s → regime.fine (mark error s)) :
    Agrees regime (Lib.marked mark first) (Lib.marked mark second) := by
  intro s
  have ends := agrees s
  obtain ⟨grown, same⟩ := ends
  unfold final at grown same
  constructor
  · unfold final Lib.marked
    cases run : first s with
    | ok value s' =>
      rw [run] at grown
      exact grown
    | error error s' =>
      rw [run] at grown
      exact grown.trans (grows error s')
  · unfold final Lib.marked
    intro start clear
    cases run : first s with
    | ok value s' =>
      rw [run] at clear same
      obtain ⟨equal, ended⟩ := same start clear
      rw [equal]
      exact ⟨rfl, ended⟩
    | error error s' =>
      rw [run] at clear same
      obtain ⟨equal, ended⟩ := same start (clear.of_suffix (grows error s'))
      rw [equal]
      exact ⟨rfl, fine error s' ended⟩

theorem tagged {tag : ε → δ} {noted : σ → σ} (agrees : Agrees regime first second)
    (grows : ∀ s, regime.record s <:+ regime.record (noted s))
    (fine : ∀ s, regime.fine s → regime.fine (noted s)) :
    Agrees regime (Lib.tagged tag noted first) (Lib.tagged tag noted second) := by
  intro s
  obtain ⟨grown, same⟩ := agrees s
  unfold final at grown same
  constructor
  · unfold final Lib.tagged
    cases run : first s with
    | ok value s' =>
      rw [run] at grown
      exact grown
    | error error s' =>
      rw [run] at grown
      exact grown.trans (grows s')
  · unfold final Lib.tagged
    intro start clear
    cases run : first s with
    | ok value s' =>
      rw [run] at clear same
      obtain ⟨equal, ended⟩ := same start clear
      rw [equal]
      exact ⟨rfl, ended⟩
    | error error s' =>
      rw [run] at clear same
      obtain ⟨equal, ended⟩ := same start (clear.of_suffix (grows s'))
      rw [equal]
      exact ⟨rfl, fine s' ended⟩

theorem foldlM {step step' : β → α → EStateM ε σ β} {items : List α}
    (each : ∀ value, ∀ item ∈ items,
      Agrees regime (step value item) (step' value item)) (value : β) :
    Agrees regime (items.foldlM step value) (items.foldlM step' value) := by
  induction items generalizing value with
  | nil => exact returns value
  | cons item rest ih =>
    rw [List.foldlM_cons, List.foldlM_cons]
    apply seq (each value item (by simp))
    exact ih fun value other among => each value other (by simp [among])

theorem forM {step step' : α → EStateM ε σ PUnit} {items : List α}
    (each : ∀ item ∈ items, Agrees regime (step item) (step' item)) :
    Agrees regime (items.forM step) (items.forM step') := by
  induction items with
  | nil => exact returns PUnit.unit
  | cons item rest ih =>
    apply seq (each item (by simp))
    intro _
    exact ih fun other among => each other (by simp [among])

/-- The second of two equal programs may be exchanged. -/
theorem of_eq {third : EStateM ε σ α} (agrees : Agrees regime first second)
    (equal : third = second) : Agrees regime first third :=
  equal ▸ agrees

end Agrees

end SmlRs.Lib
