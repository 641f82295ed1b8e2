/-
Module: SmlRs.Lib.Acyclic
Purpose: Ranks of acyclic relations with finitely many targets, and the order of
  vectors of ranks.
Trusted boundary: none
Main exports: Acyclic, rank, rank_lt, lex_lt
-/
import Mathlib.Data.DFinsupp.WellFounded
import Mathlib.Data.Finset.Card
import Mathlib.Logic.Relation

namespace SmlRs.Lib

variable {α : Type*}

/-- No path leads back to where it began. -/
def Acyclic (rel : α → α → Prop) : Prop :=
  ∀ a, ¬ Relation.TransGen rel a a

open Classical in
/-- How many of the nodes can be reached. -/
noncomputable def rank (rel : α → α → Prop) (nodes : Finset α) (a : α) : Nat :=
  (nodes.filter (Relation.TransGen rel a)).card

/-- Along an edge of an acyclic relation the rank falls. -/
theorem rank_lt {rel : α → α → Prop} {nodes : Finset α} {a b : α}
    (acyclic : Acyclic rel) (edge : rel a b) (listed : b ∈ nodes) :
    rank rel nodes b < rank rel nodes a := by
  classical
  apply Finset.card_lt_card
  rw [Finset.ssubset_iff_of_subset]
  · refine ⟨b, ?_, ?_⟩
    · exact Finset.mem_filter.mpr ⟨listed, .single edge⟩
    · exact fun among => acyclic b (Finset.mem_filter.mp among).2
  · intro c among
    obtain ⟨inside, path⟩ := Finset.mem_filter.mp among
    exact Finset.mem_filter.mpr ⟨inside, .head edge path⟩

/-- A vector falls where an entry does and none before it changes. -/
theorem lex_lt {size : Nat} {before after : Fin size → Nat} (index : Fin size)
    (same : ∀ earlier < index, after earlier = before earlier)
    (falls : after index < before index) : toLex after < toLex before :=
  ⟨index, same, falls⟩

end SmlRs.Lib
