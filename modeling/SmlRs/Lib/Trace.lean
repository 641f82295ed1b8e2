/-
Module: SmlRs.Lib.Trace
Purpose: Finite labelled runs of a transition relation, with the induction rules
  for them: invariants, budgets and termination, the same under a side condition
  on the steps, and simulation of whole runs.
Trusted boundary: none
Main exports: Trace, Trace.invariant, Trace.simulate, Trace.budget, Trace.ends,
  Restrict, TraceWhere
-/
import Mathlib.Data.List.Basic
import Mathlib.Order.WellFounded

namespace SmlRs.Lib

variable {State Label : Type*}

/-- `Trace step s labels t`: the steps named by `labels` lead from `s` to `t`.
The last step is the head constructor, so a proof by induction extends a run
that already satisfies its invariant. -/
inductive Trace (step : State → Label → State → Prop) (s : State) :
    List Label → State → Prop where
  | nil : Trace step s [] s
  | snoc {t u : State} {labels : List Label} {label : Label}
      (run : Trace step s labels t) (last : step t label u) :
      Trace step s (labels ++ [label]) u

namespace Trace

variable {step : State → Label → State → Prop}

theorem single {s t : State} {label : Label} (one : step s label t) :
    Trace step s [label] t :=
  .snoc .nil one

theorem append {s t u : State} {first second : List Label}
    (one : Trace step s first t) (two : Trace step t second u) :
    Trace step s (first ++ second) u := by
  induction two with
  | nil => simpa using one
  | snoc _ last inductionHypothesis =>
      rw [← List.append_assoc]
      exact .snoc inductionHypothesis last

theorem cons {s t u : State} {label : Label} {labels : List Label}
    (one : step s label t) (rest : Trace step t labels u) :
    Trace step s (label :: labels) u :=
  (single one).append rest

/-- The invariant rule: what holds at the start and survives every step holds
after every run. -/
theorem invariant {holds : State → Prop} {s t : State} {labels : List Label}
    (preserved : ∀ {s label t}, step s label t → holds s → holds t)
    (run : Trace step s labels t) (initial : holds s) : holds t := by
  induction run with
  | nil => exact initial
  | snoc _ last inductionHypothesis =>
      exact preserved last inductionHypothesis

/-- Weakening the relation keeps a run a run. -/
theorem mono {other : State → Label → State → Prop} {s t : State}
    {labels : List Label}
    (weaker : ∀ {s label t}, step s label t → other s label t)
    (run : Trace step s labels t) : Trace other s labels t := by
  induction run with
  | nil => exact .nil
  | snoc _ last inductionHypothesis =>
      exact .snoc inductionHypothesis (weaker last)

/-- A relation that every step of the first system can answer with a step of
the same label of the second carries whole runs over. -/
theorem simulate {Other : Type*} {other : Other → Label → Other → Prop}
    {related : State → Other → Prop} {s t : State} {labels : List Label}
    (answer : ∀ {s label t u}, step s label t → related s u →
      ∃ v, other u label v ∧ related t v)
    (run : Trace step s labels t) {u : Other} (start : related s u) :
    ∃ v, Trace other u labels v ∧ related t v := by
  induction run with
  | nil => exact ⟨u, .nil, start⟩
  | snoc _ last inductionHypothesis =>
      obtain ⟨v, prior, relatedV⟩ := inductionHypothesis
      obtain ⟨w, one, relatedW⟩ := answer last relatedV
      exact ⟨w, prior.snoc one, relatedW⟩

/-- The budget rule: where every step of a kind uses up a part of a measure that
no step raises, a run has no more of them than the measure allows. -/
theorem budget {measure : State → Nat} {spends : Label → Bool} {s t : State}
    {labels : List Label}
    (paid : ∀ {s label t}, step s label t →
      (if spends label then 1 else 0) + measure t ≤ measure s)
    (run : Trace step s labels t) :
    labels.countP spends + measure t ≤ measure s := by
  induction run with
  | nil => simp
  | snoc _ last inductionHypothesis =>
      have one := paid last
      simp only [List.countP_append, List.countP_singleton]
      omega

/-- The termination rule: where every step leads to a state that is calm and from
a calm state to a smaller one, every run comes to a state without a step. -/
theorem ends {Measure : Type*} [LT Measure] [WellFoundedLT Measure]
    {measure : State → Measure} {calm : State → Prop}
    (calms : ∀ {s label t}, step s label t → calm t)
    (falls : ∀ {s label t}, step s label t → calm s → measure t < measure s)
    (s : State) :
    ∃ labels t, Trace step s labels t ∧ ∀ label u, ¬ step t label u := by
  have from_calm (value : Measure) : ∀ s, measure s = value → calm s →
      ∃ labels t, Trace step s labels t ∧ ∀ label u, ¬ step t label u := by
    induction value using WellFoundedLT.induction with
    | ind value inductionHypothesis =>
        intro s measured calm_s
        by_cases further : ∃ label t, step s label t
        · obtain ⟨label, t, one⟩ := further
          have smaller := falls one calm_s
          obtain ⟨labels, u, run, rests⟩ :=
            inductionHypothesis (measure t) (measured ▸ smaller) t rfl (calms one)
          exact ⟨label :: labels, u, cons one run, rests⟩
        · exact ⟨[], s, .nil, fun label t one => further ⟨label, t, one⟩⟩
  by_cases further : ∃ label t, step s label t
  · obtain ⟨label, t, one⟩ := further
    obtain ⟨labels, u, run, rests⟩ := from_calm (measure t) t rfl (calms one)
    exact ⟨label :: labels, u, cons one run, rests⟩
  · exact ⟨[], s, .nil, fun label t one => further ⟨label, t, one⟩⟩

end Trace

/-- The steps of a relation that meet a condition on the state before them. -/
def Restrict (step : State → Label → State → Prop)
    (meets : State → Label → Prop) : State → Label → State → Prop :=
  fun s label t => step s label t ∧ meets s label

/-- A run all of whose steps meet a condition. -/
abbrev TraceWhere (step : State → Label → State → Prop)
    (meets : State → Label → Prop) : State → List Label → State → Prop :=
  Trace (Restrict step meets)

namespace TraceWhere

variable {step : State → Label → State → Prop} {meets : State → Label → Prop}

theorem weaken {other : State → Label → Prop} {s t : State}
    {labels : List Label}
    (weaker : ∀ {s label}, meets s label → other s label)
    (run : TraceWhere step meets s labels t) :
    TraceWhere step other s labels t :=
  Trace.mono (fun one => ⟨one.1, weaker one.2⟩) run

theorem invariant {holds : State → Prop} {s t : State} {labels : List Label}
    (run : TraceWhere step meets s labels t)
    (preserved : ∀ s label t, step s label t → meets s label →
      holds s → holds t) (initial : holds s) : holds t :=
  Trace.invariant (fun one => preserved _ _ _ one.1 one.2) run initial

theorem budget {measure : State → Nat} {spends : Label → Bool} {s t : State}
    {labels : List Label} (run : TraceWhere step meets s labels t)
    (paid : ∀ s label t, step s label t → meets s label →
      (if spends label then 1 else 0) + measure t ≤ measure s) :
    labels.countP spends + measure t ≤ measure s :=
  Trace.budget (fun one => paid _ _ _ one.1 one.2) run

end TraceWhere

end SmlRs.Lib
