/-
Module: SmlRs.Lib.Record
Purpose: Facts about every entry of a record, given the entries before it.
Trusted boundary: none
Main exports: Throughout, throughout_iff, Answered, Answered.answer
-/
import Mathlib.Data.List.Chain
import Mathlib.Data.List.Induction

namespace SmlRs.Lib

/-!
A record is a list of entries, newest first, that only grows at its head.
-/

variable {Entry : Type*}

/-- A fact holds of every entry of a record and of what came before it. -/
def Throughout (fact : Entry → List Entry → Prop) : List Entry → Prop
  | [] => True
  | entry :: past => fact entry past ∧ Throughout fact past

instance Throughout.decidable {fact : Entry → List Entry → Prop}
    [∀ entry past, Decidable (fact entry past)] (record : List Entry) :
    Decidable (Throughout fact record) :=
  match record with
  | [] => inferInstanceAs (Decidable True)
  | entry :: past =>
      have : Decidable (Throughout fact past) := Throughout.decidable past
      inferInstanceAs (Decidable (fact entry past ∧ Throughout fact past))

section Throughout

variable {fact other : Entry → List Entry → Prop}
  {entry : Entry} {record past after : List Entry}

@[simp] theorem throughout_nil : Throughout fact [] := trivial

@[simp] theorem throughout_cons :
    Throughout fact (entry :: past) ↔ fact entry past ∧ Throughout fact past :=
  Iff.rfl

theorem Throughout.before (holds : Throughout fact (after ++ past)) :
    Throughout fact past := by
  induction after with
  | nil => exact holds
  | cons newest after ih => exact ih holds.2

theorem Throughout.mono (holds : Throughout fact record)
    (weaker : ∀ entry past, fact entry past → other entry past) :
    Throughout other record := by
  induction record with
  | nil => trivial
  | cons newest record ih => exact ⟨weaker _ _ holds.1, ih holds.2⟩

theorem throughout_iff :
    Throughout fact record ↔
      ∀ after entry past, record = after ++ entry :: past → fact entry past := by
  constructor
  · rintro holds after entry past rfl
    exact holds.before.1
  · intro each
    induction record with
    | nil => trivial
    | cons newest record ih =>
      refine ⟨each [] newest record rfl, ih fun after entry past same => ?_⟩
      exact each (newest :: after) entry past (by simp [same])

theorem Throughout.at (holds : Throughout fact record)
    (split : record = after ++ entry :: past) : fact entry past :=
  throughout_iff.mp holds after entry past split

theorem Throughout.at_mem (holds : Throughout fact record)
    (among : entry ∈ record) : ∃ past, fact entry past ∧
      ∀ earlier ∈ past, earlier ∈ record := by
  obtain ⟨after, past, split⟩ := List.append_of_mem among
  exact ⟨past, holds.at split, by simp +contextual [split]⟩

end Throughout

section Answered

variable (answers : Entry → Entry → Prop) (calls : Entry → Prop)

/-- What stands between two entries that follow each other. -/
def Linked (newer older : Entry) : Prop :=
  calls older → answers newer older

/-- The entries that call for an answer have it right behind them. The newest
entry does not call for one. -/
def Answered : List Entry → Prop
  | [] => True
  | newest :: past =>
      ¬ calls newest ∧ List.IsChain (Linked answers calls) (newest :: past)

variable {answers calls}
variable {entry : Entry} {record past after : List Entry}

theorem Answered.chain (holds : Answered answers calls record) :
    List.IsChain (Linked answers calls) record := by
  cases record with
  | nil => exact List.isChain_nil
  | cons newest past => exact holds.2

/-- Any entry may follow where nothing is called for. -/
theorem Answered.chain_cons (holds : Answered answers calls past) :
    List.IsChain (Linked answers calls) (entry :: past) := by
  cases past with
  | nil => exact List.isChain_singleton _
  | cons newest past =>
    exact List.isChain_cons_cons.mpr
      ⟨fun called => absurd called holds.1, holds.2⟩

theorem Answered.cons (holds : Answered answers calls past)
    (silent : ¬ calls entry) : Answered answers calls (entry :: past) :=
  ⟨silent, holds.chain_cons⟩

/-- A call with its answer. -/
theorem Answered.cons_cons {answer : Entry} (holds : Answered answers calls past)
    (answered : answers answer entry) (silent : ¬ calls answer) :
    Answered answers calls (answer :: entry :: past) :=
  ⟨silent, List.isChain_cons_cons.mpr ⟨fun _ => answered, holds.chain_cons⟩⟩

theorem Answered.answer (holds : Answered answers calls record)
    (split : record = after ++ entry :: past) (called : calls entry) :
    ∃ front answer, after = front ++ [answer] ∧ answers answer entry := by
  cases after using List.reverseRecOn with
  | nil =>
    subst split
    exact absurd called holds.1
  | append_singleton front answer =>
    have chained := holds.chain
    rw [split, List.append_assoc] at chained
    have behind := chained.right_of_append
    obtain ⟨next, _⟩ := List.isChain_cons_cons.mp behind
    exact ⟨front, answer, rfl, next called⟩

end Answered

end SmlRs.Lib
