/-
Module: SmlRs.Lib.Binders
Purpose: Trees with labels at their nodes and names bound at some of them: a visitor
  with a stack of scopes meets the free names.
Trusted boundary: none
Main exports: Rose, Rose.visit, Rose.visited, Binding, Binding.free,
  Binding.met_eq_free
-/
import Mathlib.Data.List.Basic

namespace SmlRs.Lib

/-- A tree with a label at every node. -/
inductive Rose (L : Type*) where
  | node (label : L) (parts : List (Rose L))

namespace Rose

variable {L C D σ : Type*}

theorem induct {motive : Rose L → Prop}
    (node : ∀ label parts, (∀ part ∈ parts, motive part) → motive (.node label parts))
    (tree : Rose L) : motive tree := by
  refine @Rose.rec L motive (fun parts => ∀ part ∈ parts, motive part) node ?_ ?_ tree
  · intro part among
    exact absurd among List.not_mem_nil
  · intro first rest holds each part among
    cases among with
    | head => exact holds
    | tail _ among => exact each part among

/-! ### Equality -/

section Equality

variable [DecidableEq L]

mutual

def same : Rose L → Rose L → Bool
  | .node label parts, .node label' parts' => label = label' && same_parts parts parts'

def same_parts : List (Rose L) → List (Rose L) → Bool
  | [], [] => true
  | part :: parts, part' :: parts' => same part part' && same_parts parts parts'
  | [], _ :: _ => false
  | _ :: _, [] => false

end

theorem same_parts_iff {parts : List (Rose L)}
    (each : ∀ part ∈ parts, ∀ other, same part other = true ↔ part = other) :
    ∀ others, same_parts parts others = true ↔ parts = others := by
  induction parts with
  | nil =>
      intro others
      cases others <;> simp [same_parts]
  | cons part parts hypothesis =>
      intro others
      cases others with
      | nil => simp [same_parts]
      | cons other others =>
          have first := each part (List.mem_cons_self ..) other
          have rest := hypothesis
            (fun part among => each part (List.mem_cons_of_mem _ among)) others
          simp [same_parts, first, rest]

theorem same_iff (tree other : Rose L) : same tree other = true ↔ tree = other := by
  induction tree using induct generalizing other with
  | node label parts each =>
      cases other with
      | node label' parts' =>
          simp [same, same_parts_iff each]

instance : DecidableEq (Rose L) := fun tree other =>
  decidable_of_iff _ (same_iff tree other)

end Equality

/-! ### Visitors -/

section Visit

variable (inherit : C → L → C) (meet : C → L → σ → σ)

mutual

/-- A visitor comes to a node before its parts, and it comes to all of them with what
they inherit. -/
def visit (context : C) : Rose L → σ → σ
  | .node label parts, state =>
      visit_parts (inherit context label) parts
        (meet (inherit context label) label state)

def visit_parts (context : C) : List (Rose L) → σ → σ
  | [], state => state
  | part :: parts, state => visit_parts context parts (visit context part state)

end

mutual

/-- The labels in the order in which a visitor meets them. -/
def visited (context : C) : Rose L → List (C × L)
  | .node label parts =>
      (inherit context label, label) :: visited_parts (inherit context label) parts

def visited_parts (context : C) : List (Rose L) → List (C × L)
  | [] => []
  | part :: parts => visited context part ++ visited_parts context parts

end

end Visit

variable {inherit : C → L → C} {meet : C → L → σ → σ} {context : C} {tree : Rose L}

theorem visited_parts_eq (parts : List (Rose L)) :
    visited_parts inherit context parts = parts.flatMap (visited inherit context) := by
  induction parts with
  | nil => rfl
  | cons part parts hypothesis =>
      rw [visited_parts, hypothesis, List.flatMap_cons]

theorem visit_parts_eq {parts : List (Rose L)}
    (each : ∀ part ∈ parts, ∀ context state, visit inherit meet context part state =
      (visited inherit context part).foldl (fun state met => meet met.1 met.2 state)
        state) (context : C) (state : σ) :
    visit_parts inherit meet context parts state =
      (visited_parts inherit context parts).foldl
        (fun state met => meet met.1 met.2 state) state := by
  induction parts generalizing state with
  | nil => rfl
  | cons part parts hypothesis =>
      rw [visit_parts, visited_parts, List.foldl_append,
        each part (List.mem_cons_self ..)]
      exact hypothesis (fun part among => each part (List.mem_cons_of_mem _ among)) _

/-- What a visitor makes of a tree it makes of the labels that it meets. -/
theorem visit_eq (tree : Rose L) : ∀ (context : C) (state : σ),
    visit inherit meet context tree state =
      (visited inherit context tree).foldl (fun state met => meet met.1 met.2 state)
        state := by
  induction tree using induct with
  | node label parts each =>
      intro context state
      rw [visit, visited, List.foldl_cons]
      exact visit_parts_eq each _ _

/-- A visitor with more to inherit meets the same labels. -/
theorem visited_map {inherit' : D → L → D} (forget : C → D)
    (commutes : ∀ context label,
      forget (inherit context label) = inherit' (forget context) label)
    (tree : Rose L) : ∀ context : C,
    (visited inherit context tree).map (Prod.map forget id) =
      visited inherit' (forget context) tree := by
  induction tree using induct with
  | node label parts each =>
      intro context
      rw [visited, visited, List.map_cons, visited_parts_eq, visited_parts_eq,
        List.map_flatMap, ← commutes]
      congr 1
      exact List.flatMap_congr fun part among => each part among _

end Rose

/-! ### Names -/

/-- Which names occur at a label, and which are bound at it and below it. -/
structure Binding (L N : Type*) where
  names : L → List N
  binds : L → Option (List N)

namespace Binding

variable {L N : Type*} [DecidableEq N] (binding : Binding L N)

/-- A scope is pushed where names are bound. -/
def inherit (scopes : List (List N)) (label : L) : List (List N) :=
  match binding.binds label with
  | none => scopes
  | some names => names :: scopes

/-- Whether a name is bound by a scope of the stack. -/
def bound (scopes : List (List N)) (name : N) : Bool :=
  scopes.any fun scope => scope.contains name

mutual

/-- The free names, as they occur. -/
def free : Rose L → List N
  | .node label parts =>
      (binding.names label ++ free_parts parts).filter fun name =>
        !((binding.binds label).any (·.contains name))

def free_parts : List (Rose L) → List N
  | [] => []
  | part :: parts => free part ++ free_parts parts

end

theorem free_parts_eq (parts : List (Rose L)) :
    binding.free_parts parts = parts.flatMap binding.free := by
  induction parts with
  | nil => rfl
  | cons part parts hypothesis =>
      rw [free_parts, hypothesis, List.flatMap_cons]

/-- The names that are met outside of the scopes that bind them. -/
def met (scopes : List (List N)) (tree : Rose L) : List N :=
  (Rose.visited binding.inherit scopes tree).flatMap fun visit =>
    (binding.names visit.2).filter fun name => !bound visit.1 name

theorem bound_inherit (scopes : List (List N)) (label : L) (name : N) :
    (!bound (binding.inherit scopes label) name) =
      (!bound scopes name && !((binding.binds label).any (·.contains name))) := by
  unfold inherit
  cases binding.binds label with
  | none => simp
  | some names => simp [bound, Bool.and_comm]

theorem met_eq (tree : Rose L) : ∀ scopes : List (List N),
    binding.met scopes tree = (binding.free tree).filter fun name => !bound scopes name := by
  induction tree using Rose.induct with
  | node label parts each =>
      intro scopes
      have below : (Rose.visited_parts binding.inherit (binding.inherit scopes label)
          parts).flatMap (fun visit =>
            (binding.names visit.2).filter fun name => !bound visit.1 name) =
          (binding.free_parts parts).filter fun name =>
            !bound (binding.inherit scopes label) name := by
        rw [Rose.visited_parts_eq, free_parts_eq, List.flatMap_assoc,
          List.filter_flatMap]
        exact List.flatMap_congr fun part among => each part among _
      rw [met, Rose.visited, List.flatMap_cons, below, free, List.filter_filter,
        ← List.filter_append]
      exact List.filter_congr fun name _ => binding.bound_inherit scopes label name

/-- With no scopes around a tree, its free names are met. -/
theorem met_eq_free (tree : Rose L) : binding.met [] tree = binding.free tree := by
  rw [met_eq]
  exact List.filter_eq_self.mpr fun _ _ => rfl

end Binding

end SmlRs.Lib
