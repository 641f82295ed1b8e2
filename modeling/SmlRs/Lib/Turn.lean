/-
Module: SmlRs.Lib.Turn
Purpose: Exclusive ownership of one turn, announced by a flag: how the stages
  of the parties may move without two of them owning the turn.
Trusted boundary: none
Main exports: Holds, held_keep, Exclusive, Exclusive.keep,
  Exclusive.acquire, Exclusive.release
-/
import Mathlib.Logic.Function.Basic

namespace SmlRs.Lib

variable {ι σ : Type*}

/-- A party holds the turn when its stage is one that owns it. -/
def Holds (owns : σ → Prop) (stages : ι → Option σ) (c : ι) : Prop :=
  ∃ stage, stages c = some stage ∧ owns stage

/-- At most one party holds the turn, and only while the flag is up. -/
structure Exclusive (owns : σ → Prop) (stages : ι → Option σ) (busy : Bool) :
    Prop where
  busy : ∀ {c}, Holds owns stages c → busy = true
  unique : ∀ {c d}, Holds owns stages c → Holds owns stages d → c = d

variable {owns : σ → Prop} {stages : ι → Option σ} {c d : ι}
  {stage : Option σ} {busy : Bool}

section Update

variable [DecidableEq ι]

theorem holds_update_self :
    Holds owns (Function.update stages c stage) c ↔
      ∃ next, stage = some next ∧ owns next := by
  simp [Holds]

theorem holds_update_of_ne (apart : d ≠ c) :
    Holds owns (Function.update stages c stage) d ↔ Holds owns stages d := by
  simp [Holds, apart]

/-- A held turn stays held unless its holder moves to where no turn is held. -/
theorem held_keep (held : ∃ holder, Holds owns stages holder)
    (moves : ¬ Holds owns stages c ∨ ∃ next, stage = some next ∧ owns next) :
    ∃ holder, Holds owns (Function.update stages c stage) holder := by
  obtain ⟨holder, holds⟩ := held
  by_cases same : holder = c
  · subst same
    rcases moves with absent | owned
    · exact absurd holds absent
    · exact ⟨holder, holds_update_self.mpr owned⟩
  · exact ⟨holder, (holds_update_of_ne same).mpr holds⟩

end Update

namespace Exclusive

theorem free (exclusive : Exclusive owns stages false) :
    ¬ Holds owns stages c := by
  intro holds
  cases exclusive.busy holds

theorem others (exclusive : Exclusive owns stages busy)
    (holder : Holds owns stages c) (apart : d ≠ c) : ¬ Holds owns stages d :=
  fun holds => apart (exclusive.unique holds holder)

variable [DecidableEq ι]

/-- The holder may move anywhere, and every party to where no turn is held. -/
theorem keep (exclusive : Exclusive owns stages busy)
    (moves : Holds owns stages c ∨ ∀ next, stage = some next → ¬ owns next) :
    Exclusive owns (Function.update stages c stage) busy := by
  have held : ∀ d, Holds owns (Function.update stages c stage) d →
      Holds owns stages d := by
    intro d holds
    by_cases same : d = c
    · subst same
      obtain ⟨next, is_next, owned⟩ := holds_update_self.mp holds
      rcases moves with holder | apart
      · exact holder
      · exact absurd owned (apart next is_next)
    · exact (holds_update_of_ne same).mp holds
  exact
    { busy := fun holds => exclusive.busy (held _ holds)
      unique := fun first second =>
        exclusive.unique (held _ first) (held _ second) }

/-- A free turn may be taken by raising the flag. -/
theorem acquire (exclusive : Exclusive owns stages false) :
    Exclusive owns (Function.update stages c stage) true := by
  have holder : ∀ d, Holds owns (Function.update stages c stage) d → d = c := by
    intro d holds
    by_contra apart
    exact exclusive.free ((holds_update_of_ne apart).mp holds)
  exact
    { busy := fun _ => rfl
      unique := fun first second =>
        (holder _ first).trans (holder _ second).symm }

/-- The holder may give the turn up and set the flag as it likes. -/
theorem release (exclusive : Exclusive owns stages busy)
    (holder : Holds owns stages c)
    (gone : ∀ next, stage = some next → ¬ owns next) (after : Bool) :
    Exclusive owns (Function.update stages c stage) after := by
  have nobody : ∀ d, ¬ Holds owns (Function.update stages c stage) d := by
    intro d holds
    by_cases same : d = c
    · subst same
      obtain ⟨next, is_next, owned⟩ := holds_update_self.mp holds
      exact gone next is_next owned
    · exact exclusive.others holder same ((holds_update_of_ne same).mp holds)
  exact
    { busy := fun holds => absurd holds (nobody _)
      unique := fun first => absurd first (nobody _) }

end Exclusive

end SmlRs.Lib
