/-
Module: SmlRs.Macros.Generics
Purpose: The generic parameters of a flat table: which types use them, which of them
  the generated items are given, and what the parser checks of them.
Trusted boundary: syn's traversal of types and bounds
Main exports: Generics, type_uses_generic_param, generics_with_lifetimes,
  filter_event_generic_lifetimes, callback_generics_with_lifetimes, check_generics,
  Scoped
-/
import SmlRs.Macros.Lifetimes

namespace SmlRs.Macros

open Lib

variable {E : Environment} {N : Type}

/-! ### Generic parameters -/

/-- `GenericParam`. A default is refused by the parser. -/
inductive GenericParam (N : Type) where
  | lifetime (param : LifetimeParam N)
  | type (ident : N) (bounds : List (DataType N))
  | const (ident : N) (data_type : DataType N)
deriving DecidableEq

/-- `WherePredicate`. What `for` binds in front of a type has no bounds. -/
inductive WherePredicate (N : Type) where
  | lifetime (lifetime : Lifetime N) (bounds : List (Lifetime N))
  | type (lifetimes : List (Lifetime N)) (bounded_ty : DataType N)
      (bounds : List (DataType N))
deriving DecidableEq

/-- `Generics`. -/
structure Generics (N : Type) where
  params : List (GenericParam N) := []
  where_clause : Option (List (WherePredicate N)) := none
deriving DecidableEq

namespace GenericParam

def is_lifetime : GenericParam N → Bool
  | lifetime _ => true
  | type .. | const .. => false

def lifetime? : GenericParam N → Option (Lifetime N)
  | lifetime param => some param.lifetime
  | type .. | const .. => none

/-- The name of a type or of a constant. -/
def ident? : GenericParam N → Option N
  | lifetime _ => none
  | type ident _ | const ident _ => some ident

@[simp] theorem is_lifetime_lifetime (param : LifetimeParam N) :
    (lifetime param).is_lifetime = true := rfl

@[simp] theorem is_lifetime_type (ident : N) (bounds : List (DataType N)) :
    (type ident bounds).is_lifetime = false := rfl

@[simp] theorem is_lifetime_const (ident : N) (data_type : DataType N) :
    (const ident data_type).is_lifetime = false := rfl

@[simp] theorem lifetime_lifetime (param : LifetimeParam N) :
    (lifetime param).lifetime? = some param.lifetime := rfl

@[simp] theorem lifetime_type (ident : N) (bounds : List (DataType N)) :
    (type ident bounds).lifetime? = none := rfl

@[simp] theorem lifetime_const (ident : N) (data_type : DataType N) :
    (const ident data_type).lifetime? = none := rfl

@[simp] theorem ident_type (ident : N) (bounds : List (DataType N)) :
    (type ident bounds).ident? = some ident := rfl

@[simp] theorem ident_const (ident : N) (data_type : DataType N) :
    (const ident data_type).ident? = some ident := rfl

end GenericParam

/-- `Generics::lifetimes`. -/
def Generics.lifetimes (generics : Generics N) : List (Lifetime N) :=
  generics.params.filterMap GenericParam.lifetime?

section Usage

variable [DecidableEq N]

/-! ### What a type uses -/

namespace Usage

/-- What `Usage` finds at a node. -/
def meet (generic : GenericParam N) (scopes : List (List (Lifetime N)))
    (label : TypeLabel N) (used : Bool) : Bool :=
  used ||
    match generic, label with
    | .type ident _, .type_path qself leading_colon segments =>
        !qself && !leading_colon && segments.head? = some ident
    | .const ident _, .type_path qself leading_colon segments
    | .const ident _, .expr_path qself leading_colon segments =>
        !qself && !leading_colon && segments = [ident]
    | .lifetime param, label =>
        label.visit_lifetimes.any fun lifetime =>
          !Binding.bound scopes lifetime && param.lifetime = lifetime
    | _, _ => false

end Usage

/-- `type_uses_generic_param`. -/
def type_uses_generic_param (event_type : DataType N) (generic : GenericParam N) :
    Bool :=
  Rose.visit lifetime_binding.inherit (Usage.meet generic) [] event_type false

/-- What `OmittedLifetime` finds at a node. -/
def OmittedLifetime.meet (omitted : List (Lifetime N))
    (scopes : List (List (Lifetime N))) (label : TypeLabel N) (found : Bool) : Bool :=
  found || label.visit_lifetimes.any fun lifetime =>
    !Binding.bound scopes lifetime && omitted.contains lifetime

/-- `type_uses_omitted_lifetime`, and `bound_uses_omitted_lifetime`. -/
def uses_omitted_lifetime (omitted : List (Lifetime N)) (data_type : DataType N) :
    Bool :=
  Rose.visit lifetime_binding.inherit (OmittedLifetime.meet omitted) [] data_type false

/-! ### The parameters of generated items -/

/-- `generics_with_lifetimes`. -/
def generics_with_lifetimes (generics : Generics N) (lifetimes : Lifetimes N) :
    Generics N :=
  let missing : List (GenericParam N) :=
    (lifetimes.filter fun lifetime => lifetime ∉ generics.lifetimes).map fun lifetime =>
      .lifetime { lifetime := lifetime }
  if missing.isEmpty then generics
  else
    { generics with
      params := generics.params.filter (·.is_lifetime) ++ missing ++
        generics.params.filter (!·.is_lifetime) }

/-- The lifetimes of the table that an item is not given. -/
def omitted_lifetimes (event_generics : Generics N) (lifetimes : Lifetimes N) :
    List (Lifetime N) :=
  event_generics.lifetimes.filter fun lifetime => lifetime ∉ lifetimes

/-- A parameter without the lifetimes that are omitted. -/
def GenericParam.filter (omitted : List (Lifetime N)) (lifetimes : Lifetimes N) :
    GenericParam N → Option (GenericParam N)
  | .lifetime param =>
      if param.lifetime ∉ lifetimes then none
      else
        some
          (.lifetime
            { param with bounds := param.bounds.filter fun bound => bound ∉ omitted })
  | .type ident bounds =>
      some (.type ident (bounds.filter fun bound => !uses_omitted_lifetime omitted bound))
  | .const ident data_type => some (.const ident data_type)

namespace GenericParam

variable {omitted : List (Lifetime N)} {lifetimes : Lifetimes N}

@[simp] theorem filter_lifetime (param : LifetimeParam N) :
    (lifetime param).filter omitted lifetimes =
      if param.lifetime ∉ lifetimes then none
      else
        some
          (lifetime
            { param with bounds := param.bounds.filter fun bound => bound ∉ omitted }) :=
  rfl

@[simp] theorem filter_type (ident : N) (bounds : List (DataType N)) :
    (type ident bounds).filter omitted lifetimes =
      some (type ident (bounds.filter fun bound => !uses_omitted_lifetime omitted bound)) :=
  rfl

@[simp] theorem filter_const (ident : N) (data_type : DataType N) :
    (const ident data_type).filter omitted lifetimes = some (const ident data_type) :=
  rfl

end GenericParam

/-- A predicate without the lifetimes that are omitted. -/
def WherePredicate.filter (omitted : List (Lifetime N)) :
    WherePredicate N → Option (WherePredicate N)
  | .lifetime own bounds =>
      if own ∈ omitted then none
      else
        let bounds := bounds.filter fun bound => bound ∉ omitted
        if bounds.isEmpty then none else some (.lifetime own bounds)
  | .type lifetimes bounded_ty bounds =>
      if uses_omitted_lifetime omitted bounded_ty then none
      else
        let bounds := bounds.filter fun bound => !uses_omitted_lifetime omitted bound
        if bounds.isEmpty then none else some (.type lifetimes bounded_ty bounds)

/-- `filter_event_generic_lifetimes`. -/
def filter_event_generic_lifetimes (event_generics generics : Generics N)
    (lifetimes : Lifetimes N) : Generics N :=
  let omitted := omitted_lifetimes event_generics lifetimes
  if omitted.isEmpty then generics
  else
    { params := generics.params.filterMap (·.filter omitted lifetimes)
      where_clause :=
        match generics.where_clause with
        | none => none
        | some predicates =>
            let predicates := predicates.filterMap (·.filter omitted)
            if predicates.isEmpty then none else some predicates }

/-- `type_uses_event_generics`. -/
def type_uses_event_generics (event_generics : Generics N) (event_type : DataType N) :
    Bool :=
  event_generics.params.any (type_uses_generic_param event_type)

/-- `temporary_context_uses_event_generics`. -/
def temporary_context_uses_event_generics (event_generics : Generics N)
    (temporary_context_type : Option (DataType N)) : Bool :=
  temporary_context_type.any (type_uses_event_generics event_generics)

/-- The `callback_lifetimes`: those of the data, and those of the table that a generic
context uses. -/
def callback_lifetimes (event_generics : Generics N)
    (temporary_context_type : Option (DataType N)) (lifetimes : Lifetimes N) :
    Lifetimes N :=
  match temporary_context_type with
  | none => lifetimes
  | some context =>
      if type_uses_event_generics event_generics context then
        Lifetimes.extend lifetimes
          ((event_generics.params.filter fun generic =>
            generic.is_lifetime && type_uses_generic_param context generic).filterMap
              GenericParam.lifetime?)
      else lifetimes

/-- Whether a callback is given the parameters of the table. -/
def callback_uses (event_generics : Generics N)
    (temporary_context_type event_type : Option (DataType N)) : Bool :=
  event_type.any (type_uses_event_generics event_generics) ||
    temporary_context_uses_event_generics event_generics temporary_context_type

/-- `callback_generics_with_lifetimes`. -/
def callback_generics_with_lifetimes (event_generics : Generics N)
    (temporary_context_type : Option (DataType N)) (lifetimes : Lifetimes N)
    (event_type : Option (DataType N)) : Generics N :=
  let uses_event_generics :=
    callback_uses event_generics temporary_context_type event_type
  let generics := if uses_event_generics then event_generics else {}
  let callback_lifetimes :=
    callback_lifetimes event_generics temporary_context_type lifetimes
  let generics := generics_with_lifetimes generics callback_lifetimes
  if uses_event_generics then
    filter_event_generic_lifetimes event_generics generics callback_lifetimes
  else generics

/-- `completion_generics_with_lifetimes`. -/
def completion_generics_with_lifetimes (event_generics : Generics N)
    (lifetimes : Lifetimes N) (event_type : Option (DataType N)) : Generics N :=
  let uses_event_generics := event_type.any (type_uses_event_generics event_generics)
  let generics := if uses_event_generics then event_generics else {}
  let generics := generics_with_lifetimes generics lifetimes
  if uses_event_generics then
    filter_event_generic_lifetimes event_generics generics lifetimes
  else generics

/-! ### The checks of the parser -/

/-- `StateTransition` of the parser. -/
structure TypedRow (E : Environment) (N : Type) where
  row : ParsedRow E (DataType N)
  external : Bool := false

/-- `StateMachine` of the parser, with its types. -/
structure TypedTable (E : Environment) (N : Type) where
  transitions : List (TypedRow E N)
  event_generics : Generics N := {}
  temporary_context_type : Option (DataType N) := none

/-- Why the generics of a table are rejected. -/
inductive GenericsError (E : Environment) (N : Type) where
  /-- "generic events cannot use `defer` or `process(...)` because their
  dispatch-inside parameters cannot be stored in the machine's fixed event queue" -/
  | queue
  /-- "stored state data cannot use dispatch-inside generic event parameter `{name}`;
  only lifetimes may be shared with machine state" -/
  | state_data (state : E.Ident) (generic : GenericParam N)
  /-- "typed exception payloads cannot use dispatch-inside generic event parameter
  `{name}`" -/
  | exception (event : E.Ident) (generic : GenericParam N)
  /-- "generic event `{}` must use declared parameter `{name}` so generated dispatch and
  callbacks can infer the complete event family" -/
  | incomplete_event (event : E.Ident) (generic : GenericParam N)
  /-- "declared generic event parameter `{name}` must be used by at least one event
  payload" -/
  | unused (generic : GenericParam N)
  /-- "a generic temporary context must use declared parameter `{name}` so generated
  callbacks can infer the complete event family" -/
  | incomplete_context (generic : GenericParam N)
  /-- "Completion origin data cannot be a mutable reference." -/
  | mutable_origin (event : E.Ident)

/-- The parameters that are types or constants. -/
def Generics.families (generics : Generics N) : List (GenericParam N) :=
  generics.params.filter (!·.is_lifetime)

/-- The first of some parameters is refused. -/
def refuse {ε : Type} (generic : Option (GenericParam N))
    (error : GenericParam N → ε) : Except ε Unit :=
  match generic with
  | some generic => .error (error generic)
  | none => .ok ()

def check_state_data (generics : Generics N) (state : E.Ident)
    (data_type : Option (DataType N)) : Except (GenericsError E N) Unit :=
  match data_type with
  | none => .ok ()
  | some data_type =>
      refuse (generics.families.find? (type_uses_generic_param data_type))
        (.state_data state)

def check_event (generics : Generics N) (transition : TypedRow E N) :
    Except (GenericsError E N) Unit :=
  match transition.row.event_type with
  | none => .ok ()
  | some event_type => do
      if transition.row.event.kind = .exception then
        refuse (generics.params.find? (type_uses_generic_param event_type))
          (.exception transition.row.event.ident)
      let uses_declared_generic :=
        generics.params.any (type_uses_generic_param event_type)
      if !transition.external && !uses_declared_generic then pure ()
      else
        refuse (generics.families.find? (!type_uses_generic_param event_type ·))
          (.incomplete_event transition.row.event.ident)

def check_used (generics : Generics N) (transitions : List (TypedRow E N)) :
    Except (GenericsError E N) Unit :=
  refuse
    (generics.params.find? fun generic => !transitions.any fun transition =>
      transition.row.event_type.any fun event_type =>
        type_uses_generic_param event_type generic)
    .unused

def check_context (generics : Generics N) (temporary_context : Option (DataType N)) :
    Except (GenericsError E N) Unit :=
  match temporary_context with
  | none => .ok ()
  | some context =>
      if generics.params.any (type_uses_generic_param context) then
        refuse (generics.families.find? (!type_uses_generic_param context ·))
          .incomplete_context
      else .ok ()

/-- A mutable reference. -/
def DataType.is_mutable_reference : DataType N → Bool
  | .node (.reference _ mutability) _ => mutability
  | .node _ _ => false

def check_completion (transitions : List (TypedRow E N)) (transition : TypedRow E N) :
    Except (GenericsError E N) Unit :=
  if transition.row.event.kind = .completion then
    let direct_mutable_reference :=
      transition.row.event_type.any DataType.is_mutable_reference
    let mutable_external_origin :=
      !transition.row.event.wildcard && transitions.any fun candidate =>
        candidate.external && candidate.row.event.ident = transition.row.event.ident &&
          candidate.row.event_type.any DataType.is_mutable_reference
    if direct_mutable_reference || mutable_external_origin then
      .error (.mutable_origin transition.row.event.ident)
    else .ok ()
  else .ok ()

/-- What `ParsedStateMachine::new` checks before it derives targets. -/
def check_generics (table : TypedTable E N) : Except (GenericsError E N) Unit := do
  let generics := table.event_generics
  if !generics.params.isEmpty && table.transitions.any fun transition =>
      transition.row.defer || !transition.row.process_events.isEmpty then
    throw .queue
  table.transitions.forM fun transition => do
    check_state_data generics transition.row.in_state.ident
      transition.row.in_state.data_type
    check_state_data generics transition.row.out_state.ident
      transition.row.out_state.data_type
  table.transitions.forM (check_event generics)
  check_used generics table.transitions
  check_context generics table.temporary_context_type
  table.transitions.forM (check_completion table.transitions)

/-! ### What is used -/

theorem foldl_used {α : Type} (test : α → Bool) (items : List α) (used : Bool) :
    items.foldl (fun used item => used || test item) used = (used || items.any test) := by
  induction items generalizing used with
  | nil => simp
  | cons item rest hypothesis =>
      rw [List.foldl_cons, hypothesis, List.any_cons, Bool.or_assoc]

/-- A visitor that looks for a lifetime finds it among the free ones. -/
theorem any_met {test : Lifetime N → Bool} (data_type : DataType N) :
    ((Rose.visited lifetime_binding.inherit [] data_type).any fun visit =>
      visit.2.visit_lifetimes.any fun lifetime =>
        !Binding.bound visit.1 lifetime && test lifetime) =
      (free_lifetimes data_type).any test := by
  rw [free_lifetimes, ← Binding.met_eq_free, Binding.met, List.any_flatMap]
  congr 1
  funext visit
  rw [List.any_filter]
  rfl

theorem uses_omitted_lifetime_eq (omitted : List (Lifetime N))
    (data_type : DataType N) :
    uses_omitted_lifetime omitted data_type =
      (free_lifetimes data_type).any omitted.contains := by
  unfold uses_omitted_lifetime
  rw [Rose.visit_eq, ← any_met, ← Bool.false_or (List.any ..)]
  exact foldl_used (fun visit : List (List (Lifetime N)) × TypeLabel N =>
    visit.2.visit_lifetimes.any fun lifetime =>
      !Binding.bound visit.1 lifetime && omitted.contains lifetime) _ _

theorem type_uses_lifetime_eq (data_type : DataType N) (param : LifetimeParam N) :
    type_uses_generic_param data_type (.lifetime param) =
      (free_lifetimes data_type).any fun lifetime => param.lifetime = lifetime := by
  unfold type_uses_generic_param
  rw [Rose.visit_eq, ← any_met, ← Bool.false_or (List.any ..)]
  exact foldl_used (fun visit : List (List (Lifetime N)) × TypeLabel N =>
    visit.2.visit_lifetimes.any fun lifetime =>
      !Binding.bound visit.1 lifetime && param.lifetime = lifetime) _ _

theorem uses_lifetime_iff {data_type : DataType N} {param : LifetimeParam N} :
    type_uses_generic_param data_type (.lifetime param) = true ↔
      param.lifetime ∈ free_lifetimes data_type := by
  rw [type_uses_lifetime_eq]
  simp

/-! ### The scope of generic parameters -/

namespace GenericParam

/-- The bounds of a parameter, and the type of a constant. -/
def bounds : GenericParam N → List (DataType N)
  | lifetime _ => []
  | type _ bounds => bounds
  | const _ data_type => [data_type]

/-- The lifetimes that a parameter mentions. -/
def mentions : GenericParam N → List (Lifetime N)
  | lifetime param => param.bounds
  | type _ bounds => bounds.flatMap free_lifetimes
  | const _ data_type => free_lifetimes data_type

end GenericParam

namespace WherePredicate

def bounds : WherePredicate N → List (DataType N)
  | lifetime .. => []
  | type _ bounded_ty bounds => bounded_ty :: bounds

/-- The lifetimes that a predicate mentions. -/
def mentions : WherePredicate N → List (Lifetime N)
  | lifetime own bounds => own :: bounds
  | type lifetimes bounded_ty bounds =>
      ((bounded_ty :: bounds).flatMap free_lifetimes).filter fun lifetime =>
        lifetime ∉ lifetimes

end WherePredicate

namespace Generics

def predicates (generics : Generics N) : List (WherePredicate N) :=
  generics.where_clause.getD []

/-- The bounds in the parameters and in the `where` clause. -/
def bounds (generics : Generics N) : List (DataType N) :=
  generics.params.flatMap (·.bounds) ++ generics.predicates.flatMap (·.bounds)

/-- The lifetimes that the parameters and the `where` clause mention. -/
def mentions (generics : Generics N) : List (Lifetime N) :=
  generics.params.flatMap (·.mentions) ++ generics.predicates.flatMap (·.mentions)

/-- The lifetimes are declared once, in front of the other parameters, and no other
lifetime is mentioned. No constant has a type with a lifetime. -/
structure Scoped (generics : Generics N) : Prop where
  distinct : generics.lifetimes.Nodup
  named : .static ∉ generics.lifetimes
  leading : generics.params.Pairwise fun param behind =>
    behind.is_lifetime = true → param.is_lifetime = true
  closed : ∀ lifetime ∈ generics.mentions,
    lifetime = .static ∨ lifetime ∈ generics.lifetimes
  constants : ∀ ident data_type, .const ident data_type ∈ generics.params →
    ∀ lifetime ∈ free_lifetimes data_type, lifetime = .static

omit [DecidableEq N] in
theorem mem_lifetimes {generics : Generics N} {lifetime : Lifetime N} :
    lifetime ∈ generics.lifetimes ↔
      ∃ param, .lifetime param ∈ generics.params ∧ param.lifetime = lifetime := by
  unfold lifetimes
  rw [List.mem_filterMap]
  constructor
  · intro found
    obtain ⟨generic, among, own⟩ := found
    cases generic with
    | lifetime param => exact ⟨param, among, Option.some.inj own⟩
    | type ident bounds => cases own
    | const ident data_type => cases own
  · intro declared
    obtain ⟨param, among, own⟩ := declared
    exact ⟨.lifetime param, among, congrArg some own⟩

theorem Scoped.none : ({} : Generics N).Scoped where
  distinct := List.nodup_nil
  named := List.not_mem_nil
  leading := .nil
  closed _ mention := absurd mention List.not_mem_nil
  constants _ _ among := absurd among List.not_mem_nil

/-! ### Lifetimes that are added -/

section With

variable {generics : Generics N} {lifetimes : Lifetimes N}

/-- The lifetimes that are missing from some generics. -/
def missing (generics : Generics N) (lifetimes : Lifetimes N) : List (GenericParam N) :=
  (lifetimes.filter fun lifetime => lifetime ∉ generics.lifetimes).map fun lifetime =>
    .lifetime { lifetime := lifetime }

omit [DecidableEq N] in
theorem filter_leading {params : List (GenericParam N)}
    (leading : params.Pairwise fun param behind =>
      behind.is_lifetime = true → param.is_lifetime = true) :
    params.filter (·.is_lifetime) ++ params.filter (!·.is_lifetime) = params := by
  induction params with
  | nil => rfl
  | cons param rest hypothesis =>
      obtain ⟨before, leading⟩ := List.pairwise_cons.mp leading
      cases own : param.is_lifetime with
      | true =>
          rw [List.filter_cons_of_pos own, List.filter_cons_of_neg (by simp [own]),
            List.cons_append, hypothesis leading]
      | false =>
          have none : rest.filter (·.is_lifetime) = [] := by
            apply List.filter_eq_nil_iff.mpr
            intro behind among lifetime
            rw [before behind among lifetime] at own
            cases own
          have all : rest.filter (!·.is_lifetime) = rest := by
            have same := hypothesis leading
            rw [none] at same
            exact same
          rw [List.filter_cons_of_neg (by simp [own]),
            List.filter_cons_of_pos (by simp [own]), none, all]
          rfl

/-- With lifetimes in front, whether or not some are missing, as far as the lifetimes
stand in front of the others. -/
theorem with_params (leading : generics.params.Pairwise fun param behind =>
      behind.is_lifetime = true → param.is_lifetime = true) :
    (generics_with_lifetimes generics lifetimes).params =
      generics.params.filter (·.is_lifetime) ++ generics.missing lifetimes ++
        generics.families := by
  unfold generics_with_lifetimes
  change (if (generics.missing lifetimes).isEmpty = true then generics else _).params = _
  by_cases empty : (generics.missing lifetimes).isEmpty = true
  · rw [if_pos empty, List.isEmpty_iff.mp empty, List.append_nil]
    exact (filter_leading leading).symm
  · rw [if_neg empty]
    rfl

omit [DecidableEq N] in
theorem filterMap_filter_lifetime (params : List (GenericParam N)) :
    (params.filter (·.is_lifetime)).filterMap GenericParam.lifetime? =
      params.filterMap GenericParam.lifetime? := by
  rw [List.filterMap_filter]
  apply List.filterMap_congr
  intro param _
  cases param <;> rfl

omit [DecidableEq N] in
theorem filterMap_filter_family (params : List (GenericParam N)) :
    (params.filter (!·.is_lifetime)).filterMap GenericParam.lifetime? = [] := by
  apply List.filterMap_eq_nil_iff.mpr
  intro param among
  cases param with
  | lifetime param => cases (List.mem_filter.mp among).2
  | type ident bounds => rfl
  | const ident data_type => rfl

theorem missing_lifetimes :
    (generics.missing lifetimes).filterMap GenericParam.lifetime? =
      lifetimes.filter fun lifetime => lifetime ∉ generics.lifetimes := by
  unfold missing
  rw [List.filterMap_map]
  exact List.filterMap_some

theorem mem_missing {param : GenericParam N} (among : param ∈ generics.missing lifetimes) :
    ∃ lifetime, param = .lifetime { lifetime := lifetime } := by
  obtain ⟨lifetime, _, rfl⟩ := List.mem_map.mp among
  exact ⟨lifetime, rfl⟩

variable (inside : generics.Scoped)

include inside

theorem with_lifetimes :
    (generics_with_lifetimes generics lifetimes).lifetimes =
      generics.lifetimes ++ lifetimes.filter fun lifetime =>
        lifetime ∉ generics.lifetimes := by
  unfold Generics.lifetimes
  rw [with_params inside.leading, List.filterMap_append, List.filterMap_append,
    filterMap_filter_lifetime, missing_lifetimes, families, filterMap_filter_family,
    List.append_nil]
  rfl

theorem mem_with_lifetimes {lifetime : Lifetime N} :
    lifetime ∈ (generics_with_lifetimes generics lifetimes).lifetimes ↔
      lifetime ∈ generics.lifetimes ∨ lifetime ∈ lifetimes := by
  rw [with_lifetimes inside, List.mem_append, List.mem_filter]
  by_cases known : lifetime ∈ generics.lifetimes <;> simp [known]

theorem with_families :
    (generics_with_lifetimes generics lifetimes).families = generics.families := by
  have missing : (generics.missing lifetimes).filter (!·.is_lifetime) = [] := by
    apply List.filter_eq_nil_iff.mpr
    intro param among
    obtain ⟨lifetime, rfl⟩ := mem_missing among
    simp
  unfold families
  rw [with_params inside.leading, List.filter_append, List.filter_append, missing,
    families, List.filter_filter, List.filter_filter]
  simp

omit inside in
theorem with_predicates :
    (generics_with_lifetimes generics lifetimes).predicates = generics.predicates := by
  unfold generics_with_lifetimes
  dsimp only
  split
  · rfl
  · rfl

theorem mem_with_params {param : GenericParam N}
    (among : param ∈ (generics_with_lifetimes generics lifetimes).params) :
    param ∈ generics.params ∨ ∃ lifetime, param = .lifetime { lifetime := lifetime } := by
  rw [with_params inside.leading, List.mem_append, List.mem_append] at among
  rcases among with (among | among) | among
  · exact .inl (List.mem_filter.mp among).1
  · exact .inr (mem_missing among)
  · exact .inl (List.mem_filter.mp among).1

/-- Added lifetimes are in scope, and they mention no others. -/
theorem Scoped.with_lifetimes (distinct : lifetimes.Nodup) (named : .static ∉ lifetimes) :
    (generics_with_lifetimes generics lifetimes).Scoped where
  distinct := by
    rw [Generics.with_lifetimes inside, List.nodup_append]
    refine ⟨inside.distinct, distinct.filter _, ?_⟩
    intro known among other missing same
    have new := (List.mem_filter.mp missing).2
    rw [← same] at new
    exact absurd among (of_decide_eq_true new)
  named := by
    rw [mem_with_lifetimes inside]
    intro cases
    rcases cases with among | among
    · exact inside.named among
    · exact named among
  leading := by
    rw [with_params inside.leading, List.pairwise_append]
    have front : ∀ param ∈ generics.params.filter (·.is_lifetime) ++
        generics.missing lifetimes, param.is_lifetime = true := by
      intro param among
      rcases List.mem_append.mp among with among | among
      · exact (List.mem_filter.mp among).2
      · obtain ⟨lifetime, rfl⟩ := mem_missing among
        rfl
    refine ⟨?_, ?_, ?_⟩
    · exact List.pairwise_of_forall_mem_list fun param among _ _ _ => front param among
    · exact inside.leading.filter _
    · intro param among _ _ _
      exact front param among
  closed := by
    intro lifetime mention
    rw [mem_with_lifetimes inside]
    have before : lifetime ∈ generics.mentions := by
      unfold mentions at mention ⊢
      rw [with_predicates] at mention
      rcases List.mem_append.mp mention with mention | mention
      · obtain ⟨param, among, mention⟩ := List.mem_flatMap.mp mention
        rcases mem_with_params inside among with among | ⟨own, rfl⟩
        · exact List.mem_append_left _ (List.mem_flatMap.mpr ⟨param, among, mention⟩)
        · cases mention
      · exact List.mem_append_right _ mention
    rcases inside.closed lifetime before with static | declared
    · exact .inl static
    · exact .inr (.inl declared)
  constants := by
    intro ident data_type among
    rcases mem_with_params inside among with among | ⟨own, same⟩
    · exact inside.constants ident data_type among
    · cases same

end With

/-! ### Lifetimes that are omitted -/

section Filter

variable {event_generics generics : Generics N} {lifetimes omitted : Lifetimes N}
  {lifetime : Lifetime N}

theorem mem_omitted_lifetimes :
    lifetime ∈ omitted_lifetimes event_generics lifetimes ↔
      lifetime ∈ event_generics.lifetimes ∧ lifetime ∉ lifetimes := by
  simp [omitted_lifetimes]

theorem not_mem_of_unused {data_type : DataType N}
    (unused : uses_omitted_lifetime omitted data_type = false)
    (mention : lifetime ∈ free_lifetimes data_type) : lifetime ∉ omitted := by
  rw [uses_omitted_lifetime_eq, List.any_eq_false] at unused
  simpa using unused lifetime mention

/-- What is left of a parameter mentions no lifetime that is omitted, unless it is a
constant. -/
theorem param_mentions {param kept : GenericParam N}
    (filtered : param.filter omitted lifetimes = some kept)
    (mention : lifetime ∈ kept.mentions) :
    lifetime ∈ param.mentions ∧
      (lifetime ∉ omitted ∨ ∃ ident data_type, param = .const ident data_type) := by
  cases param with
  | lifetime param =>
      rw [GenericParam.filter_lifetime] at filtered
      split at filtered
      · cases filtered
      · cases filtered
        obtain ⟨among, apart⟩ := List.mem_filter.mp mention
        exact ⟨among, .inl (of_decide_eq_true apart)⟩
  | type ident bounds =>
      cases filtered
      obtain ⟨bound, among, mention⟩ := List.mem_flatMap.mp mention
      obtain ⟨among, unused⟩ := List.mem_filter.mp among
      rw [Bool.not_eq_true'] at unused
      exact ⟨List.mem_flatMap.mpr ⟨bound, among, mention⟩,
        .inl (not_mem_of_unused unused mention)⟩
  | const ident data_type =>
      cases filtered
      exact ⟨mention, .inr ⟨ident, data_type, rfl⟩⟩

theorem predicate_mentions {predicate kept : WherePredicate N}
    (filtered : predicate.filter omitted = some kept)
    (mention : lifetime ∈ kept.mentions) :
    lifetime ∈ predicate.mentions ∧ lifetime ∉ omitted := by
  cases predicate with
  | lifetime own bounds =>
      unfold WherePredicate.filter at filtered
      dsimp only at filtered
      split at filtered <;> rename_i apart
      · cases filtered
      · split at filtered
        · cases filtered
        · cases filtered
          cases mention with
          | head => exact ⟨List.mem_cons_self .., apart⟩
          | tail _ mention =>
              obtain ⟨among, apart⟩ := List.mem_filter.mp mention
              exact ⟨List.mem_cons_of_mem _ among, of_decide_eq_true apart⟩
  | type binders bounded_ty bounds =>
      unfold WherePredicate.filter at filtered
      dsimp only at filtered
      split at filtered <;> rename_i unused
      · cases filtered
      · rw [Bool.not_eq_true] at unused
        split at filtered
        · cases filtered
        · cases filtered
          obtain ⟨mention, unbound⟩ := List.mem_filter.mp mention
          rw [List.flatMap_cons] at mention
          rcases List.mem_append.mp mention with mention | mention
          · refine ⟨List.mem_filter.mpr ⟨?_, unbound⟩, not_mem_of_unused unused mention⟩
            exact List.mem_append_left _ mention
          · obtain ⟨bound, among, mention⟩ := List.mem_flatMap.mp mention
            obtain ⟨among, unused⟩ := List.mem_filter.mp among
            rw [Bool.not_eq_true'] at unused
            refine ⟨List.mem_filter.mpr ⟨?_, unbound⟩, not_mem_of_unused unused mention⟩
            exact List.mem_append_right _ (List.mem_flatMap.mpr ⟨bound, among, mention⟩)

/-- A parameter that is kept is of the kind that it was, with its name. -/
theorem param_kept {param kept : GenericParam N}
    (filtered : param.filter omitted lifetimes = some kept) :
    kept.is_lifetime = param.is_lifetime ∧ kept.ident? = param.ident? ∧
      kept.lifetime? = param.lifetime? := by
  cases param with
  | lifetime param =>
      rw [GenericParam.filter_lifetime] at filtered
      split at filtered
      · cases filtered
      · cases filtered
        exact ⟨rfl, rfl, rfl⟩
  | type ident bounds =>
      cases filtered
      exact ⟨rfl, rfl, rfl⟩
  | const ident data_type =>
      cases filtered
      exact ⟨rfl, rfl, rfl⟩

/-- A parameter that is kept is used where it was. -/
theorem param_used {param kept : GenericParam N}
    (filtered : param.filter omitted lifetimes = some kept) (data_type : DataType N) :
    type_uses_generic_param data_type kept = type_uses_generic_param data_type param := by
  cases param with
  | lifetime param =>
      rw [GenericParam.filter_lifetime] at filtered
      split at filtered
      · cases filtered
      · cases filtered
        rw [type_uses_lifetime_eq, type_uses_lifetime_eq]
  | type ident bounds =>
      cases filtered
      have same (bounds' : List (DataType N)) :
          Usage.meet (.type ident bounds') = Usage.meet (.type ident bounds) := by
        funext scopes label used
        cases label <;> rfl
      unfold type_uses_generic_param
      rw [same]
  | const ident data_type =>
      cases filtered
      rfl

theorem filter_lifetimes (params : List (GenericParam N)) :
    (params.filterMap (·.filter omitted lifetimes)).filterMap GenericParam.lifetime? =
      (params.filterMap GenericParam.lifetime?).filter fun lifetime =>
        lifetime ∈ lifetimes := by
  induction params with
  | nil => rfl
  | cons param rest hypothesis =>
      cases param with
      | lifetime param =>
          by_cases kept : param.lifetime ∈ lifetimes
          · simp [kept, hypothesis]
          · simp [kept, hypothesis]
      | type ident bounds => simpa [List.filterMap_cons] using hypothesis
      | const ident data_type => simpa [List.filterMap_cons] using hypothesis

theorem filter_families (params : List (GenericParam N)) :
    ((params.filterMap (·.filter omitted lifetimes)).filter (!·.is_lifetime)).map
        GenericParam.ident? =
      (params.filter (!·.is_lifetime)).map GenericParam.ident? := by
  induction params with
  | nil => rfl
  | cons param rest hypothesis =>
      cases param with
      | lifetime param =>
          by_cases kept : param.lifetime ∈ lifetimes
          · simp [kept, hypothesis]
          · simp [kept, hypothesis]
      | type ident bounds =>
          simp [hypothesis]
      | const ident data_type =>
          simp [hypothesis]

/-- Where lifetimes of the table are omitted, the others stay in scope. -/
theorem Scoped.filter (inside : generics.Scoped)
    (known : ∀ lifetime ∈ generics.lifetimes,
      lifetime ∈ event_generics.lifetimes ∨ lifetime ∈ lifetimes) :
    (filter_event_generic_lifetimes event_generics generics lifetimes).Scoped := by
  unfold filter_event_generic_lifetimes
  dsimp only
  split
  · exact inside
  · have declared (where_clause : Option (List (WherePredicate N))) :
        (Generics.mk (generics.params.filterMap
          (·.filter (omitted_lifetimes event_generics lifetimes) lifetimes))
            where_clause).lifetimes =
          generics.lifetimes.filter fun lifetime => lifetime ∈ lifetimes :=
      filter_lifetimes generics.params
    refine ⟨?_, ?_, ?_, ?_, ?_⟩
    · rw [declared]
      exact inside.distinct.filter _
    · rw [declared]
      exact fun among => inside.named (List.mem_filter.mp among).1
    · apply List.Pairwise.filterMap _ _ inside.leading
      intro param behind before kept left other behind_left lifetime
      rw [(param_kept left).1]
      exact before ((param_kept behind_left).1 ▸ lifetime)
    · intro lifetime mention
      rw [declared, List.mem_filter]
      have still : lifetime ∈ generics.mentions ∧
          (lifetime ∉ omitted_lifetimes event_generics lifetimes ∨
            lifetime = .static) := by
        unfold mentions at mention ⊢
        rcases List.mem_append.mp mention with mention | mention
        · obtain ⟨kept, among, mention⟩ := List.mem_flatMap.mp mention
          obtain ⟨param, among, filtered⟩ := List.mem_filterMap.mp among
          obtain ⟨mention, apart⟩ := param_mentions filtered mention
          refine ⟨List.mem_append_left _
            (List.mem_flatMap.mpr ⟨param, among, mention⟩), ?_⟩
          rcases apart with apart | ⟨ident, data_type, rfl⟩
          · exact .inl apart
          · exact .inr (inside.constants ident data_type among lifetime mention)
        · obtain ⟨kept, among, mention⟩ := List.mem_flatMap.mp mention
          unfold predicates at among ⊢
          cases written : generics.where_clause with
          | none =>
              rw [written] at among
              cases among
          | some predicates =>
              rw [written] at among
              have among : kept ∈ predicates.filterMap
                  (·.filter (omitted_lifetimes event_generics lifetimes)) := by
                dsimp only at among
                split at among
                · cases among
                · exact among
              obtain ⟨predicate, among, filtered⟩ := List.mem_filterMap.mp among
              obtain ⟨mention, apart⟩ := predicate_mentions filtered mention
              exact ⟨List.mem_append_right _
                (List.mem_flatMap.mpr ⟨predicate, among, mention⟩), .inl apart⟩
      rcases still with ⟨mention, apart | static⟩
      · rcases inside.closed lifetime mention with static | declared
        · exact .inl static
        · refine .inr ⟨declared, decide_eq_true ?_⟩
          rcases known lifetime declared with own | among
          · by_contra absent
            exact apart (mem_omitted_lifetimes.mpr ⟨own, absent⟩)
          · exact among
      · exact .inl static
    · intro ident data_type among
      obtain ⟨param, among, filtered⟩ := List.mem_filterMap.mp among
      cases param with
      | lifetime param =>
          have kind := (param_kept filtered).1
          cases kind
      | type ident bounds => cases filtered
      | const ident data_type =>
          cases filtered
          exact inside.constants ident data_type among

/-- What generics with some lifetimes of the table and some others should be: they are
in scope, and they have all types and constants of the table or none. -/
structure Fits (event_generics : Generics N) (whole : Bool) (lifetimes : Lifetimes N)
    (generics : Generics N) : Prop where
  inside : generics.Scoped
  lifetimes_iff : ∀ lifetime, lifetime ∈ generics.lifetimes ↔ lifetime ∈ lifetimes
  families : whole = true →
    generics.families.map GenericParam.ident? =
      event_generics.families.map GenericParam.ident?
  bare : whole = false → generics.bounds = []

theorem fits_bare (distinct : lifetimes.Nodup) (named : .static ∉ lifetimes) :
    Fits event_generics false lifetimes (generics_with_lifetimes {} lifetimes) where
  inside := Scoped.none.with_lifetimes distinct named
  lifetimes_iff lifetime := by
    rw [mem_with_lifetimes Scoped.none]
    exact or_iff_right List.not_mem_nil
  families := nofun
  bare _ := by
    unfold bounds
    rw [with_predicates]
    have params : (generics_with_lifetimes {} lifetimes).params.flatMap (·.bounds) = [] := by
      apply List.flatMap_eq_nil_iff.mpr
      intro param among
      rcases mem_with_params Scoped.none among with among | ⟨lifetime, rfl⟩
      · cases among
      · rfl
    rw [params]
    rfl

theorem fits_filter (inside : event_generics.Scoped) (distinct : lifetimes.Nodup)
    (named : .static ∉ lifetimes) :
    Fits event_generics true lifetimes
      (filter_event_generic_lifetimes event_generics
        (generics_with_lifetimes event_generics lifetimes) lifetimes) where
  inside := (inside.with_lifetimes distinct named).filter fun _ =>
    (mem_with_lifetimes inside).mp
  lifetimes_iff lifetime := by
    unfold filter_event_generic_lifetimes
    dsimp only
    split <;> rename_i empty
    · rw [mem_with_lifetimes inside, or_iff_right_iff_imp]
      intro own
      by_contra absent
      have omitted : lifetime ∈ omitted_lifetimes event_generics lifetimes :=
        mem_omitted_lifetimes.mpr ⟨own, absent⟩
      rw [List.isEmpty_iff.mp empty] at omitted
      cases omitted
    · have declared : lifetime ∈
          ((generics_with_lifetimes event_generics lifetimes).params.filterMap
            (·.filter (omitted_lifetimes event_generics lifetimes) lifetimes)).filterMap
              GenericParam.lifetime? ↔ lifetime ∈ lifetimes := by
        rw [filter_lifetimes, List.mem_filter]
        have all := @mem_with_lifetimes _ _ event_generics lifetimes inside lifetime
        unfold Generics.lifetimes at all
        rw [all]
        by_cases among : lifetime ∈ lifetimes <;> simp [among]
      exact declared
  families _ := by
    unfold filter_event_generic_lifetimes
    dsimp only
    split
    · rw [with_families inside]
    · have same := @filter_families _ _ lifetimes
        (omitted_lifetimes event_generics lifetimes)
        (generics_with_lifetimes event_generics lifetimes).params
      have all := @with_families _ _ event_generics lifetimes inside
      unfold Generics.families at all ⊢
      rw [all] at same
      exact same
  bare := nofun

/-- The types and constants that are left are those of the table. -/
theorem mem_filter_families (inside : event_generics.Scoped) {generic : GenericParam N}
    (among : generic ∈ (filter_event_generic_lifetimes event_generics
      (generics_with_lifetimes event_generics lifetimes) lifetimes).families) :
    ∃ own ∈ event_generics.families, ∀ data_type,
      type_uses_generic_param data_type generic =
        type_uses_generic_param data_type own := by
  unfold filter_event_generic_lifetimes at among
  dsimp only at among
  split at among
  · rw [with_families inside] at among
    exact ⟨generic, among, fun _ => rfl⟩
  · obtain ⟨among, kind⟩ := List.mem_filter.mp among
    obtain ⟨own, among, filtered⟩ := List.mem_filterMap.mp among
    have family : own ∈ (generics_with_lifetimes event_generics lifetimes).families := by
      refine List.mem_filter.mpr ⟨among, ?_⟩
      rw [← (param_kept filtered).1]
      exact kind
    rw [with_families inside] at family
    exact ⟨own, family, param_used filtered⟩

/-- The parameters of the table and some lifetimes, if they are used, else only the
lifetimes. -/
theorem fits_used (inside : event_generics.Scoped) (distinct : lifetimes.Nodup)
    (named : .static ∉ lifetimes) (uses : Bool) :
    Fits event_generics uses lifetimes
      (if uses then
        filter_event_generic_lifetimes event_generics
          (generics_with_lifetimes (if uses then event_generics else {}) lifetimes)
            lifetimes
      else generics_with_lifetimes (if uses then event_generics else {}) lifetimes) := by
  cases uses with
  | true => exact fits_filter inside distinct named
  | false => exact fits_bare distinct named

theorem mem_callback_lifetimes {context : Option (DataType N)} :
    lifetime ∈ callback_lifetimes event_generics context lifetimes ↔
      lifetime ∈ lifetimes ∨ lifetime ≠ .static ∧ lifetime ∈ event_generics.lifetimes ∧
        ∃ own, context = some own ∧ lifetime ∈ free_lifetimes own := by
  unfold callback_lifetimes
  cases context with
  | none => simp
  | some own =>
      have among : lifetime ∈ (event_generics.params.filter fun generic =>
          generic.is_lifetime && type_uses_generic_param own generic).filterMap
            GenericParam.lifetime? ↔
          lifetime ∈ event_generics.lifetimes ∧ lifetime ∈ free_lifetimes own := by
        rw [List.mem_filterMap, mem_lifetimes]
        constructor
        · intro found
          obtain ⟨generic, among, named⟩ := found
          obtain ⟨among, used⟩ := List.mem_filter.mp among
          obtain ⟨_, used⟩ := (Bool.and_eq_true_iff ..).mp used
          cases generic with
          | lifetime param =>
              cases named
              exact ⟨⟨param, among, rfl⟩, uses_lifetime_iff.mp used⟩
          | type ident bounds => cases named
          | const ident data_type => cases named
        · rintro ⟨⟨param, among, rfl⟩, mention⟩
          refine ⟨.lifetime param, List.mem_filter.mpr ⟨among, ?_⟩, rfl⟩
          simpa using uses_lifetime_iff.mpr mention
      dsimp only
      split <;> rename_i uses
      · rw [Lifetimes.mem_extend, among]
        simp
        tauto
      · constructor
        · exact .inl
        · intro cases
          rcases cases with known | ⟨_, declared, _, same, mention⟩
          · exact known
          · cases same
            obtain ⟨param, listed, rfl⟩ := mem_lifetimes.mp declared
            exact absurd (List.any_eq_true.mpr
              ⟨.lifetime param, listed, uses_lifetime_iff.mpr mention⟩) uses

theorem nodup_callback_lifetimes {context : Option (DataType N)}
    (distinct : lifetimes.Nodup) :
    (callback_lifetimes event_generics context lifetimes).Nodup := by
  unfold callback_lifetimes
  cases context with
  | none => exact distinct
  | some own =>
      dsimp only
      split
      · exact Lifetimes.nodup_extend distinct
      · exact distinct

/-- A callback is given the lifetimes of its data and of its context. -/
theorem fits_callback {context event_type : Option (DataType N)}
    (inside : event_generics.Scoped) (distinct : lifetimes.Nodup)
    (named : .static ∉ lifetimes) :
    Fits event_generics (callback_uses event_generics context event_type)
      (callback_lifetimes event_generics context lifetimes)
      (callback_generics_with_lifetimes event_generics context lifetimes event_type) := by
  refine fits_used inside (nodup_callback_lifetimes distinct) ?_ _
  rw [mem_callback_lifetimes]
  rintro (among | ⟨own, _⟩)
  · exact named among
  · exact own rfl

theorem fits_completion {event_type : Option (DataType N)}
    (inside : event_generics.Scoped) (distinct : lifetimes.Nodup)
    (named : .static ∉ lifetimes) :
    Fits event_generics (event_type.any (type_uses_event_generics event_generics))
      lifetimes (completion_generics_with_lifetimes event_generics lifetimes event_type) :=
  fits_used inside distinct named _

end Filter

end Generics

end Usage

end SmlRs.Macros
