/-
Module: SmlRs.Macros.Lifetimes
Purpose: The lifetimes of the data types of a table: how they are collected from a
  type, and what the definitions of the data keep of them.
Trusted boundary: syn's traversal of a type, and that its parser only puts lifetimes
  behind `for`
Main exports: DataType, Lifetimes.from_type, DataDefinitions, from_type_eq_some_iff,
  Definitions.Sound
-/
import SmlRs.Lib.Binders
import SmlRs.Macros.Parsed

namespace SmlRs.Macros

open Lib

variable {E : Environment} {N : Type}

/-! ### Types -/

/-- `Lifetime`. `'static` is no parameter, and `'_` is a name like others. -/
inductive Lifetime (N : Type) where
  | static
  | named (ident : N)
deriving DecidableEq

/-- `LifetimeParam`. -/
structure LifetimeParam (N : Type) where
  lifetime : Lifetime N
  bounds : List (Lifetime N) := []
deriving DecidableEq

/-- What stands at a node of a type. The visitors look at lifetimes, references, bare
functions, trait bounds and paths. -/
inductive TypeLabel (N : Type) where
  /-- A lifetime as an argument or as a bound. -/
  | lifetime (lifetime : Lifetime N)
  | reference (lifetime : Option (Lifetime N)) (mutability : Bool)
  | bare_fn (lifetimes : Option (List (LifetimeParam N)))
  | trait_bound (lifetimes : Option (List (LifetimeParam N)))
  | type_path (qself leading_colon : Bool) (segments : List N)
  | expr_path (qself leading_colon : Bool) (segments : List N)
  /-- Any other node with its own tokens. -/
  | other (tokens : List N)
deriving DecidableEq

/-- `Type`, and the bounds and arguments in it. The parts of a node are in the order
in which they are visited. -/
abbrev DataType (N : Type) := Rose (TypeLabel N)

namespace TypeLabel

/-- The lifetimes that `visit_lifetime` is called with at a node. -/
def visit_lifetimes : TypeLabel N → List (Lifetime N)
  | lifetime own => [own]
  | reference own _ => own.toList
  | bare_fn lifetimes | trait_bound lifetimes =>
      (lifetimes.getD []).flatMap fun param => param.lifetime :: param.bounds
  | type_path .. | expr_path .. | other _ => []

/-- `push_bound_lifetimes`, where `visit_type_bare_fn` and `visit_trait_bound` call
it. -/
def push_bound_lifetimes : TypeLabel N → Option (List (Lifetime N))
  | bare_fn lifetimes | trait_bound lifetimes =>
      lifetimes.map fun params => params.map (·.lifetime)
  | lifetime _ | reference .. | type_path .. | expr_path .. | other _ => none

def is_bare_fn : TypeLabel N → Bool
  | bare_fn _ => true
  | _ => false

/-- A reference whose lifetime is not written. -/
def is_elided : TypeLabel N → Bool
  | reference none _ => true
  | _ => false

end TypeLabel

def lifetime_binding : Binding (TypeLabel N) (Lifetime N) where
  names := TypeLabel.visit_lifetimes
  binds := TypeLabel.push_bound_lifetimes

/-! ### Collecting the lifetimes of a type -/

section Collect

variable [DecidableEq N]

instance : LawfulBEq (Lifetime N) := inferInstance

/-- The lifetimes of a type that no `for` around them binds. -/
def free_lifetimes (data_type : DataType N) : List (Lifetime N) :=
  lifetime_binding.free data_type

/-- `Lifetimes`. -/
abbrev Lifetimes (N : Type) := List (Lifetime N)

namespace Lifetimes

/-- `Lifetimes::insert`. -/
def insert (lifetimes : Lifetimes N) (lifetime : Lifetime N) : Lifetimes N :=
  if lifetime = .static then lifetimes
  else if lifetime ∈ lifetimes then lifetimes
  else lifetimes ++ [lifetime]

/-- `Lifetimes::extend`. -/
def extend (lifetimes other : Lifetimes N) : Lifetimes N :=
  other.foldl Lifetimes.insert lifetimes

/-- `Lifetimes::without`. -/
def without (lifetimes other : Lifetimes N) : Lifetimes N :=
  lifetimes.filter fun lifetime => lifetime ∉ other

end Lifetimes

/-- `Collector`, without the scopes and the depth, which are inherited. -/
structure Collector (N : Type) where
  lifetimes : Lifetimes N := []
  missing_reference_lifetime : Bool := false

namespace Collector

/-- The scopes of bound lifetimes, and how many bare functions are around. -/
def inherit (context : List (List (Lifetime N)) × Nat) (label : TypeLabel N) :
    List (List (Lifetime N)) × Nat :=
  (lifetime_binding.inherit context.1 label,
    if label.is_bare_fn then context.2 + 1 else context.2)

/-- `visit_lifetime` of the collector. -/
def visit_lifetime (scopes : List (List (Lifetime N))) (collector : Collector N)
    (lifetime : Lifetime N) : Collector N :=
  if Binding.bound scopes lifetime then collector
  else { collector with lifetimes := Lifetimes.insert collector.lifetimes lifetime }

/-- What the collector does at a node. -/
def meet (context : List (List (Lifetime N)) × Nat) (label : TypeLabel N)
    (collector : Collector N) : Collector N :=
  let collector :=
    if label.is_elided && context.2 = 0 then
      { collector with missing_reference_lifetime := true }
    else collector
  label.visit_lifetimes.foldl (visit_lifetime context.1) collector

end Collector

/-- `Lifetimes::from_type`. -/
def Lifetimes.from_type (data_type : DataType N) : Option (Lifetimes N) :=
  let collector := Rose.visit Collector.inherit Collector.meet ([], 0) data_type {}
  if collector.missing_reference_lifetime then none else some collector.lifetimes

/-- Whether a reference outside of bare functions has no lifetime. -/
def elides (data_type : DataType N) : Bool :=
  (Rose.visited Collector.inherit ([], 0) data_type).any fun visit =>
    visit.2.is_elided && visit.1.2 = 0

namespace Lifetimes

variable {lifetimes other : Lifetimes N} {lifetime : Lifetime N}

theorem mem_insert {added : Lifetime N} :
    lifetime ∈ Lifetimes.insert lifetimes added ↔
      lifetime ∈ lifetimes ∨ lifetime = added ∧ lifetime ≠ .static := by
  unfold Lifetimes.insert
  split <;> rename_i static
  · subst static
    constructor
    · exact .inl
    · intro cases
      rcases cases with among | ⟨rfl, named⟩
      · exact among
      · exact absurd rfl named
  · split <;> rename_i known
    · constructor
      · exact .inl
      · intro cases
        rcases cases with among | ⟨rfl, _⟩
        · exact among
        · exact known
    · rw [List.mem_append, List.mem_singleton]
      constructor
      · intro cases
        rcases cases with among | rfl
        · exact .inl among
        · exact .inr ⟨rfl, static⟩
      · intro cases
        rcases cases with among | ⟨rfl, _⟩
        · exact .inl among
        · exact .inr rfl

theorem mem_extend :
    lifetime ∈ Lifetimes.extend lifetimes other ↔
      lifetime ∈ lifetimes ∨ lifetime ∈ other ∧ lifetime ≠ .static := by
  unfold Lifetimes.extend
  induction other generalizing lifetimes with
  | nil => simp
  | cons first rest hypothesis =>
      rw [List.foldl_cons, hypothesis, mem_insert, List.mem_cons]
      tauto

theorem nodup_insert (distinct : lifetimes.Nodup) :
    (Lifetimes.insert lifetimes lifetime).Nodup := by
  unfold Lifetimes.insert
  split
  · exact distinct
  · split <;> rename_i known
    · exact distinct
    · exact List.nodup_append.mpr ⟨distinct, List.nodup_singleton _, by
        intro one among other last
        rintro rfl
        rw [List.mem_singleton.mp last] at among
        exact known among⟩

theorem nodup_extend (distinct : lifetimes.Nodup) :
    (Lifetimes.extend lifetimes other).Nodup := by
  unfold Lifetimes.extend
  induction other generalizing lifetimes with
  | nil => exact distinct
  | cons first rest hypothesis => exact hypothesis (nodup_insert distinct)

theorem mem_without :
    lifetime ∈ Lifetimes.without lifetimes other ↔
      lifetime ∈ lifetimes ∧ lifetime ∉ other := by
  simp [Lifetimes.without]

end Lifetimes

namespace Collector

variable {collector : Collector N}

theorem foldl_visit_lifetime (scopes : List (List (Lifetime N)))
    (lifetimes : List (Lifetime N)) :
    lifetimes.foldl (visit_lifetime scopes) collector =
      { collector with
        lifetimes := Lifetimes.extend collector.lifetimes
          (lifetimes.filter fun lifetime => !Binding.bound scopes lifetime) } := by
  induction lifetimes generalizing collector with
  | nil => rfl
  | cons first rest hypothesis =>
      rw [List.foldl_cons, hypothesis, List.filter_cons]
      unfold visit_lifetime
      cases Binding.bound scopes first with
      | true => rfl
      | false => rfl

theorem foldl_meet (visits : List ((List (List (Lifetime N)) × Nat) × TypeLabel N)) :
    visits.foldl (fun collector visit => meet visit.1 visit.2 collector) collector =
      { lifetimes := Lifetimes.extend collector.lifetimes
          (visits.flatMap fun visit => visit.2.visit_lifetimes.filter fun lifetime =>
            !Binding.bound visit.1.1 lifetime)
        missing_reference_lifetime := collector.missing_reference_lifetime ||
          visits.any fun visit => visit.2.is_elided && visit.1.2 = 0 } := by
  induction visits generalizing collector with
  | nil => simp [Lifetimes.extend]
  | cons visit rest hypothesis =>
      rw [List.foldl_cons, hypothesis, List.flatMap_cons, List.any_cons, meet,
        foldl_visit_lifetime]
      unfold Lifetimes.extend
      rw [List.foldl_append]
      cases elided : visit.2.is_elided && decide (visit.1.2 = 0) <;> simp

end Collector

/-- What is collected are the free lifetimes, once each. -/
theorem from_type_eq (data_type : DataType N) :
    Lifetimes.from_type data_type =
      if elides data_type then none
      else some (Lifetimes.extend [] (free_lifetimes data_type)) := by
  have met : (Rose.visited Collector.inherit ([], 0) data_type).flatMap (fun visit =>
      visit.2.visit_lifetimes.filter fun lifetime =>
        !Binding.bound visit.1.1 lifetime) = free_lifetimes data_type := by
    have scopes : (Rose.visited Collector.inherit ([], 0) data_type).map
        (Prod.map Prod.fst id) = Rose.visited lifetime_binding.inherit [] data_type :=
      Rose.visited_map Prod.fst (fun _ _ => rfl) data_type ([], 0)
    rw [free_lifetimes, ← Binding.met_eq_free, Binding.met, ← scopes,
      List.flatMap_map]
    rfl
  rw [Lifetimes.from_type, Rose.visit_eq, Collector.foldl_meet, met, Bool.false_or]
  rfl

theorem from_type_eq_some_iff {data_type : DataType N} {lifetimes : Lifetimes N} :
    Lifetimes.from_type data_type = some lifetimes ↔
      elides data_type = false ∧
        lifetimes = Lifetimes.extend [] (free_lifetimes data_type) := by
  rw [from_type_eq]
  cases elides data_type with
  | true => simp
  | false => simp [eq_comm]

theorem mem_from_type {data_type : DataType N} {lifetimes : Lifetimes N}
    (collected : Lifetimes.from_type data_type = some lifetimes)
    {lifetime : Lifetime N} :
    lifetime ∈ lifetimes ↔ lifetime ∈ free_lifetimes data_type ∧ lifetime ≠ .static := by
  rw [(from_type_eq_some_iff.mp collected).2, Lifetimes.mem_extend]
  simp

/-! ### The definitions of the data -/

/-- `DataDefinitions`. -/
structure DataDefinitions (E : Environment) (N : Type) where
  data_types : E.Ident → Option (DataType N) := fun _ => none
  all_lifetimes : Lifetimes N := []
  lifetimes : E.Ident → Option (Lifetimes N) := fun _ => none

namespace DataDefinitions

variable (definitions : DataDefinitions E N) (key : E.Ident)

/-- `DataDefinitions::add`. -/
def add (data_type : DataType N) : Except (ParseError E) (DataDefinitions E N) :=
  match Lifetimes.from_type data_type with
  | none => .error .lifetimes
  | some lifetimes =>
      let definitions :=
        { definitions with
          data_types := Function.update definitions.data_types key (some data_type) }
      if lifetimes.isEmpty then .ok definitions
      else
        .ok
          { definitions with
            all_lifetimes := Lifetimes.extend definitions.all_lifetimes lifetimes
            lifetimes := Function.update definitions.lifetimes key (some lifetimes) }

/-- `DataDefinitions::collect`. -/
def collect (data_type : Option (DataType N)) :
    Except (ParseError E) (DataDefinitions E N) :=
  match definitions.data_types key, data_type with
  | some _, none => .error (.type_mismatch key)
  | some previous, some data_type =>
      if previous ≠ data_type then .error (.type_mismatch key)
      else definitions.add key data_type
  | none, some data_type => definitions.add key data_type
  | none, none => .ok definitions

/-- The lifetimes of the data under a key. -/
def lifetimes_of : Lifetimes N := (definitions.lifetimes key).getD []

end DataDefinitions

/-- Whether the lifetimes of a type can be collected. -/
def collects (data_type : DataType N) : Bool :=
  (Lifetimes.from_type data_type).isSome

/-- The definitions of the states and of the events. -/
structure Definitions (E : Environment) (N : Type) where
  state_data : DataDefinitions E N := {}
  event_data : DataDefinitions E N := {}

namespace Definitions

def add_state (definitions : Definitions E N) (state : E.Ident)
    (data_type : Option (DataType N)) : Except (ParseError E) (Definitions E N) := do
  let state_data ← definitions.state_data.collect state data_type
  pure { definitions with state_data := state_data }

def add_event (definitions : Definitions E N) (row : ParsedRow E (DataType N)) :
    Except (ParseError E) (Definitions E N) := do
  if row.event.kind ≠ .completion || row.event_type.isSome then
    let event_data ← definitions.event_data.collect row.event.ident row.event_type
    pure { definitions with event_data := event_data }
  else pure definitions

/-- A turn of the first loop over the rows, on the definitions. -/
def add_row (definitions : Definitions E N) (row : ParsedRow E (DataType N)) :
    Except (ParseError E) (Definitions E N) := do
  let definitions ←
    if row.in_state.wildcard then pure definitions
    else definitions.add_state row.in_state.ident row.in_state.data_type
  let definitions ←
    if row.out_state.internal_transition then pure definitions
    else definitions.add_state row.out_state.ident row.out_state.data_type
  if row.event.collects then definitions.add_event row else pure definitions

end Definitions

/-! ### What the definitions keep -/

namespace DataDefinitions

variable {definitions after : DataDefinitions E N} {key : E.Ident}

/-- The lifetimes under a key are those of its data, all of them are known once, and
every type has been given by a row. -/
structure Sound (given : DataType N → Prop) (definitions : DataDefinitions E N) :
    Prop where
  of_type : ∀ key data_type, definitions.data_types key = some data_type →
    Lifetimes.from_type data_type = some (definitions.lifetimes_of key)
  absent : ∀ key, definitions.data_types key = none → definitions.lifetimes key = none
  all_iff : ∀ lifetime, lifetime ∈ definitions.all_lifetimes ↔
    ∃ key, lifetime ∈ definitions.lifetimes_of key
  distinct : definitions.all_lifetimes.Nodup
  types : ∀ key data_type, definitions.data_types key = some data_type → given data_type

variable {given : DataType N → Prop}

theorem Sound.empty : Sound given ({} : DataDefinitions E N) where
  of_type _ _ known := nomatch known
  absent _ _ := rfl
  all_iff _ := ⟨nofun, nofun⟩
  distinct := List.nodup_nil
  types _ _ known := nomatch known

omit [DecidableEq N] in
theorem lifetimes_of_update {lifetimes : E.Ident → Option (Lifetimes N)}
    {types : E.Ident → Option (DataType N)} {all own : Lifetimes N} (other : E.Ident) :
    lifetimes_of
        { data_types := types
          all_lifetimes := all
          lifetimes := Function.update lifetimes key (some own) } other =
      if other = key then own else (lifetimes other).getD [] := by
  unfold lifetimes_of
  split <;> rename_i same
  · subst same
    simp
  · simp [Function.update_of_ne same]

omit [DecidableEq N] in
/-- What is found behind an update. -/
theorem found_update {types : E.Ident → Option (DataType N)} {data_type known : DataType N}
    {other : E.Ident} (found : Function.update types key (some data_type) other = some known) :
    other = key ∧ known = data_type ∨ other ≠ key ∧ types other = some known := by
  by_cases own : other = key
  · subst own
    rw [Function.update_self] at found
    exact .inl ⟨rfl, (Option.some.inj found).symm⟩
  · rw [Function.update_of_ne own] at found
    exact .inr ⟨own, found⟩

/-- A type is added under a key that has no other type. -/
theorem Sound.add {data_type : DataType N} (sound : definitions.Sound given)
    (run : definitions.add key data_type = .ok after) (given_type : given data_type)
    (same : ∀ previous, definitions.data_types key = some previous →
      previous = data_type) :
    after.Sound given := by
  unfold DataDefinitions.add at run
  cases collected : Lifetimes.from_type data_type with
  | none =>
      rw [collected] at run
      cases run
  | some lifetimes =>
      rw [collected] at run
      have types : ∀ other known, Function.update definitions.data_types key
          (some data_type) other = some known → given known := by
        intro other known found
        rcases found_update found with ⟨_, rfl⟩ | ⟨_, found⟩
        · exact given_type
        · exact sound.types other known found
      have absent_of : ∀ other, Function.update definitions.data_types key
          (some data_type) other = none →
            other ≠ key ∧ definitions.data_types other = none := by
        intro other none
        by_cases own : other = key
        · subst own
          rw [Function.update_self] at none
          cases none
        · rw [Function.update_of_ne own] at none
          exact ⟨own, none⟩
      -- The lifetimes that the key had are those of the same type.
      have before : definitions.lifetimes_of key ⊆ lifetimes := by
        intro lifetime among
        cases known : definitions.data_types key with
        | none =>
            rw [lifetimes_of, sound.absent key known] at among
            cases among
        | some previous =>
            have own := sound.of_type key previous known
            rw [same previous known, collected] at own
            cases own
            exact among
      cases empty : lifetimes.isEmpty with
      | true =>
          rw [List.isEmpty_iff] at empty
          subst empty
          cases run
          refine ⟨?_, ?_, sound.all_iff, sound.distinct, types⟩
          · intro other known found
            rcases found_update found with ⟨rfl, rfl⟩ | ⟨_, found⟩
            · rw [collected]
              exact congrArg some (List.subset_nil.mp before).symm
            · exact sound.of_type other known found
          · intro other none
            exact sound.absent other (absent_of other none).2
      | false =>
          simp only [empty, Bool.false_eq_true, if_false] at run
          cases run
          refine ⟨?_, ?_, ?_, Lifetimes.nodup_extend sound.distinct, types⟩
          · intro other known found
            rw [lifetimes_of_update]
            rcases found_update found with ⟨rfl, rfl⟩ | ⟨own, found⟩
            · rw [if_pos rfl, collected]
            · rw [if_neg own]
              exact sound.of_type other known found
          · intro other none
            obtain ⟨own, none⟩ := absent_of other none
            exact (Function.update_of_ne own ..).trans (sound.absent other none)
          · intro lifetime
            rw [Lifetimes.mem_extend, sound.all_iff]
            have named := (@mem_from_type _ _ _ _ collected lifetime).mp
            constructor
            · intro cases
              rcases cases with ⟨other, among⟩ | ⟨among, _⟩
              · refine ⟨other, ?_⟩
                rw [lifetimes_of_update]
                split <;> rename_i own
                · subst own
                  exact before among
                · exact among
              · refine ⟨key, ?_⟩
                rw [lifetimes_of_update, if_pos rfl]
                exact among
            · intro found
              obtain ⟨other, among⟩ := found
              rw [lifetimes_of_update] at among
              split at among
              · exact .inr ⟨among, (named among).2⟩
              · exact .inl ⟨other, among⟩

theorem Sound.collect {data_type : Option (DataType N)} (sound : definitions.Sound given)
    (run : definitions.collect key data_type = .ok after)
    (given_type : ∀ known, data_type = some known → given known) :
    after.Sound given := by
  unfold DataDefinitions.collect at run
  cases known : definitions.data_types key with
  | none =>
      cases data_type with
      | none =>
          rw [known] at run
          cases run
          exact sound
      | some data_type =>
          rw [known] at run
          exact sound.add run (given_type _ rfl) fun _ found =>
            nomatch known.symm.trans found
  | some previous =>
      cases data_type with
      | none =>
          rw [known] at run
          cases run
      | some data_type =>
          rw [known] at run
          dsimp only at run
          split at run
          · cases run
          · rename_i same
            refine sound.add run (given_type _ rfl) fun other found => ?_
            cases known.symm.trans found
            exact not_not.mp same

theorem Sound.named (sound : definitions.Sound given) {lifetime : Lifetime N}
    (among : lifetime ∈ definitions.lifetimes_of key) : lifetime ≠ .static := by
  cases known : definitions.data_types key with
  | none =>
      rw [lifetimes_of, sound.absent key known] at among
      cases among
  | some data_type =>
      exact ((mem_from_type (sound.of_type key data_type known)).mp among).2

theorem Sound.all_named (sound : definitions.Sound given) :
    Lifetime.static ∉ definitions.all_lifetimes := by
  intro among
  obtain ⟨key, among⟩ := (sound.all_iff _).mp among
  exact sound.named among rfl

/-- The types are collected as they are without their lifetimes. -/
theorem collect_types {data_type : Option (DataType N)}
    {types : E.Ident → Option (DataType N)}
    (run : Macros.collect collects definitions.data_types key data_type = .ok types) :
    ∃ after, definitions.collect key data_type = .ok after ∧ after.data_types = types := by
  have add (added : DataType N) (run : (if collects added = true then
      .ok (Function.update definitions.data_types key (some added))
      else .error .lifetimes : Except (ParseError E) (E.Ident → Option (DataType N))) =
        .ok types) :
      ∃ after, definitions.add key added = .ok after ∧ after.data_types = types := by
    unfold DataDefinitions.add
    unfold collects at run
    cases collected : Lifetimes.from_type added with
    | none =>
        rw [collected] at run
        cases run
    | some lifetimes =>
        rw [collected] at run
        cases run
        dsimp only
        split
        · exact ⟨_, rfl, rfl⟩
        · exact ⟨_, rfl, rfl⟩
  unfold Macros.collect at run
  unfold DataDefinitions.collect
  cases known : definitions.data_types key with
  | none =>
      cases data_type with
      | none =>
          rw [known] at run
          cases run
          exact ⟨_, rfl, rfl⟩
      | some data_type =>
          rw [known] at run
          exact add data_type run
  | some previous =>
      cases data_type with
      | none =>
          rw [known] at run
          cases run
      | some data_type =>
          rw [known] at run
          dsimp only at run ⊢
          split at run <;> rename_i differs
          · cases run
          · rw [if_neg differs]
            exact add data_type run

end DataDefinitions

/-! ### The loop over the rows -/

namespace Definitions

variable {definitions after : Definitions E N} {row : ParsedRow E (DataType N)}
  {rows : List (ParsedRow E (DataType N))}

/-- The three parts of a turn, one behind the other. -/
theorem add_row_parts (definitions : Definitions E N) (row : ParsedRow E (DataType N)) :
    definitions.add_row row =
      ((if row.in_state.wildcard then .ok definitions
        else definitions.add_state row.in_state.ident row.in_state.data_type) >>=
          fun definitions =>
        (if row.out_state.internal_transition then .ok definitions
          else definitions.add_state row.out_state.ident row.out_state.data_type) >>=
            fun definitions =>
          if row.event.collects then definitions.add_event row else .ok definitions) := by
  unfold Definitions.add_row
  cases row.in_state.wildcard <;> cases row.out_state.internal_transition <;> rfl

/-- The definitions have the types that are collected. -/
structure Follows (definitions : Definitions E N)
    (collected : Collected E (DataType N)) : Prop where
  state : definitions.state_data.data_types = collected.state_data
  event : definitions.event_data.data_types = collected.event_data

section Follows

variable {collected next : Collected E (DataType N)}

theorem Follows.add_state {state : E.Ident} {data_type : Option (DataType N)}
    (follows : definitions.Follows collected)
    (run : collected.add_state collects state data_type = .ok next) :
    ∃ after, definitions.add_state state data_type = .ok after ∧ after.Follows next := by
  obtain ⟨types, collect, run⟩ := passes run
  rw [← follows.state] at collect
  obtain ⟨state_data, collect, same⟩ := DataDefinitions.collect_types collect
  cases run
  refine ⟨{ definitions with state_data := state_data }, ?_, same, follows.event⟩
  unfold Definitions.add_state
  rw [collect]
  rfl

theorem Follows.add_event (follows : definitions.Follows collected)
    (run : collected.add_event collects row = .ok next) :
    ∃ after, definitions.add_event row = .ok after ∧ after.Follows next := by
  unfold Collected.add_event at run
  unfold Definitions.add_event
  by_cases typed : (decide (row.event.kind ≠ .completion) || row.event_type.isSome) = true
  · rw [if_pos typed] at run
    obtain ⟨types, collect, run⟩ := passes run
    rw [← follows.event] at collect
    obtain ⟨event_data, collect, same⟩ := DataDefinitions.collect_types collect
    cases run
    refine ⟨{ definitions with event_data := event_data }, ?_, follows.state, same⟩
    rw [if_pos typed, collect]
    rfl
  · rw [if_neg typed] at run
    cases run
    exact ⟨definitions, if_neg typed, follows.state, follows.event⟩

/-- A turn of the loop adds to the definitions whatever it collects. -/
theorem Follows.add_row (follows : definitions.Follows collected)
    (run : collected.add_row collects row = .ok next) :
    ∃ after, definitions.add_row row = .ok after ∧ after.Follows next := by
  rw [Collected.add_row_parts] at run
  obtain ⟨first, sources, run⟩ := passes run
  obtain ⟨second, targets, events⟩ := passes run
  have source : ∃ one, (if row.in_state.wildcard then .ok definitions
      else definitions.add_state row.in_state.ident row.in_state.data_type) = .ok one ∧
        one.Follows first := by
    by_cases wildcard : row.in_state.wildcard = true
    · rw [if_pos wildcard] at sources ⊢
      cases sources
      exact ⟨definitions, rfl, follows⟩
    · rw [if_neg wildcard] at sources ⊢
      exact follows.add_state sources
  obtain ⟨one, ran, follows⟩ := source
  have target : ∃ two, (if row.out_state.internal_transition then .ok one
      else one.add_state row.out_state.ident row.out_state.data_type) = .ok two ∧
        two.Follows second := by
    by_cases internal : row.out_state.internal_transition = true
    · rw [if_pos internal] at targets ⊢
      cases targets
      exact ⟨one, rfl, follows⟩
    · rw [if_neg internal] at targets ⊢
      exact follows.add_state targets
  obtain ⟨two, ran', follows⟩ := target
  have last : ∃ after, (if row.event.collects then two.add_event row else .ok two) =
      .ok after ∧ after.Follows next := by
    by_cases named : row.event.collects = true
    · rw [if_pos named] at events ⊢
      exact follows.add_event events
    · rw [if_neg named] at events ⊢
      cases events
      exact ⟨two, rfl, follows⟩
  obtain ⟨after, ran'', follows⟩ := last
  refine ⟨after, ?_, follows⟩
  rw [add_row_parts]
  simp only [ran, ran', ran'', bind, Except.bind]

theorem Follows.add_rows (follows : definitions.Follows collected)
    (run : rows.foldlM (Collected.add_row collects) collected = .ok next) :
    ∃ after, rows.foldlM Definitions.add_row definitions = .ok after ∧ after.Follows next := by
  induction rows generalizing definitions collected with
  | nil =>
      cases run
      exact ⟨definitions, rfl, follows⟩
  | cons row rest hypothesis =>
      rw [List.foldlM_cons] at run
      obtain ⟨first, turn, run⟩ := passes run
      obtain ⟨one, ran, follows⟩ := follows.add_row turn
      obtain ⟨after, rest, follows⟩ := hypothesis follows run
      refine ⟨after, ?_, follows⟩
      rw [List.foldlM_cons, ran]
      exact rest

end Follows

section Sound

variable {of_state of_event : DataType N → Prop}

structure Sound (of_state of_event : DataType N → Prop)
    (definitions : Definitions E N) : Prop where
  state : definitions.state_data.Sound of_state
  event : definitions.event_data.Sound of_event

/-- The types that a row gives to the definitions. -/
structure Gives (of_state of_event : DataType N → Prop)
    (row : ParsedRow E (DataType N)) : Prop where
  source : ∀ data_type, row.in_state.data_type = some data_type → of_state data_type
  target : ∀ data_type, row.out_state.data_type = some data_type → of_state data_type
  event : row.event.collects = true → ∀ data_type, row.event_type = some data_type →
    of_event data_type

theorem Sound.add_state {state : E.Ident} {data_type : Option (DataType N)}
    (sound : definitions.Sound of_state of_event)
    (gives : ∀ known, data_type = some known → of_state known)
    (run : definitions.add_state state data_type = .ok after) :
    after.Sound of_state of_event := by
  obtain ⟨state_data, collect, run⟩ := passes run
  cases run
  exact ⟨sound.state.collect collect gives, sound.event⟩

theorem Sound.add_row (sound : definitions.Sound of_state of_event)
    (gives : Gives of_state of_event row) (run : definitions.add_row row = .ok after) :
    after.Sound of_state of_event := by
  rw [add_row_parts] at run
  obtain ⟨first, sources, run⟩ := passes run
  obtain ⟨second, targets, events⟩ := passes run
  have one : first.Sound of_state of_event := by
    split at sources
    · cases sources
      exact sound
    · exact sound.add_state gives.source sources
  have two : second.Sound of_state of_event := by
    split at targets
    · cases targets
      exact one
    · exact one.add_state gives.target targets
  split at events <;> rename_i named
  · unfold Definitions.add_event at events
    split at events
    · obtain ⟨event_data, collect, run⟩ := passes events
      cases run
      exact ⟨two.state, two.event.collect collect (gives.event named)⟩
    · cases events
      exact two
  · cases events
    exact two

theorem Sound.add_rows (sound : definitions.Sound of_state of_event)
    (gives : ∀ row ∈ rows, Gives of_state of_event row)
    (run : rows.foldlM Definitions.add_row definitions = .ok after) :
    after.Sound of_state of_event := by
  induction rows generalizing definitions with
  | nil =>
      cases run
      exact sound
  | cons row rest hypothesis =>
      rw [List.foldlM_cons] at run
      obtain ⟨first, turn, run⟩ := passes run
      exact hypothesis (sound.add_row (gives row (List.mem_cons_self ..)) turn)
        (fun row among => gives row (List.mem_cons_of_mem _ among)) run

end Sound

end Definitions

end Collect

end SmlRs.Macros
