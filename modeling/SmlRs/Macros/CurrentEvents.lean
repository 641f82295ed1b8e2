/-
Module: SmlRs.Macros.CurrentEvents
Purpose: The event types a machine visits in a configuration, and what it does
  with an event of another type.
Trusted boundary: none
Main exports: visit_current_events, current_rows, Unvisited, Undisturbed,
  visit_current_events_agrees
-/
import Mathlib.Data.List.Dedup
import SmlRs.Macros.Machines
import SmlRs.Macros.Routing

namespace SmlRs.Macros

open Lib

variable {E : Environment}

/-!
The generators tell payload types apart by their tokens.  `event_type` gives the
type a row declares for its event, where it declares one and the type is static.
-/

/-! ### The rows a query is made of -/

namespace StateTransition

variable (row : StateTransition E)

/-- `is_query_event`. -/
def is_query_event : Bool :=
  (row.event.kind = .normal || row.event.kind = .unexpected) &&
    !row.event.wildcard

/-- Whether the row is for this event and no other. -/
def listens (event : E.Ident) : Bool :=
  row.triggered .normal event || row.triggered .unexpected event

theorem is_query_event_of_listens {event : E.Ident}
    (listens : row.listens event = true) : row.is_query_event = true := by
  simp only [StateTransition.listens, triggered, Bool.or_eq_true,
    Bool.and_eq_true, decide_eq_true_eq] at listens
  unfold is_query_event
  rcases listens with ⟨⟨kind, named⟩, _⟩ | ⟨⟨kind, named⟩, _⟩
  · simp [kind, named]
  · simp [kind, named]

end StateTransition

section Queries

variable {T : Type} [LinearOrder T] (event_type : StateTransition E → Option T)

/-- The type that a row adds to the queries. -/
def StateTransition.query (row : StateTransition E) : Option T :=
  if row.is_query_event then event_type row else none

omit [LinearOrder T] in
theorem StateTransition.query_of_listens {row : StateTransition E}
    {event : E.Ident} (listens : row.listens event = true) :
    row.query event_type = event_type row :=
  if_pos (row.is_query_event_of_listens listens)

/-- A type of `event_queries` with one of its conditions. -/
structure Query (E : Environment) (T : Type) where
  event_type : T
  condition : View E → Bool

/-- The keys of a map, in order. -/
def keys (types : List T) : List T :=
  types.dedup.insertionSort (· ≤ ·)

theorem keys_nodup (types : List T) : (keys types).Nodup :=
  (List.perm_insertionSort _ _).nodup_iff.mpr types.nodup_dedup

theorem mem_keys {types : List T} {type : T} :
    type ∈ keys types ↔ type ∈ types := by
  unfold keys
  rw [List.mem_insertionSort, List.mem_dedup]

/-- `event_query_calls`: the types of which a condition holds. -/
def event_query_calls (queries : List (Query E T)) (view : View E) : List T :=
  (keys (queries.map (·.event_type))).filter fun type =>
    queries.any fun query => query.event_type = type && query.condition view

theorem event_query_calls_nodup (queries : List (Query E T)) (view : View E) :
    (event_query_calls queries view).Nodup :=
  (keys_nodup _).filter _

theorem mem_event_query_calls {queries : List (Query E T)} {view : View E}
    {type : T} :
    type ∈ event_query_calls queries view ↔
      ∃ query ∈ queries, query.event_type = type ∧
        query.condition view = true := by
  unfold event_query_calls
  simp only [List.mem_filter, mem_keys, List.mem_map, List.any_eq_true,
    Bool.and_eq_true, decide_eq_true_eq]
  constructor
  · rintro ⟨_, query, among, same, holds⟩
    exact ⟨query, among, same, holds⟩
  · rintro ⟨query, among, same, holds⟩
    exact ⟨⟨query, among, same⟩, query, among, same, holds⟩

namespace Tables

variable (tree : Tables E)

/-! ### The queries of the three generators -/

/-- `event_queries` of a flat orthogonal machine. A row whose source lies in no
region is left out. -/
def region_queries : List (Query E T) :=
  (tree.node 0).transitions.filterMap fun row => do
    let type ← row.query event_type
    let region ← (tree.node 0).regions.findIdx? fun region =>
      region.states.contains row.in_state.ident
    pure ⟨type, fun view => (view.state ⟨0, region⟩).ident = row.in_state.ident⟩

/-- What a table of a tree adds to `event_queries`. The root is always active. -/
def node_queries (node : Nat) : List (Query E T) :=
  (tree.node node).transitions.filterMap fun row => do
    let type ← row.query event_type
    pure ⟨type, fun view => tree.active view node &&
      (tree.slots node).any fun place =>
        (view.state place).ident = row.in_state.ident⟩

/-- `__sml_visit_current_events` of a machine with regions or nested tables. -/
def visit_current_events (view : View E) : List T :=
  event_query_calls
    (if tree.size = 1 then tree.region_queries event_type
      else (0 :: tree.references).flatMap (tree.node_queries event_type))
    view

end Tables

/-- `__sml_visit_current_events` of a flat machine: the arm of the state it is
in. -/
def Flat.visit_current_events (flat : Flat E) (view : View E) : List T :=
  keys ((flat.table.rows (view.state Flat.slot).ident).filterMap
    (·.query event_type))

def Machine.visit_current_events : Machine E → View E → List T
  | .flat code => code.visit_current_events event_type
  | .tree code => code.visit_current_events event_type

end Queries

/-! ### The rows of the active states -/

namespace Tables

variable (tree : Tables E)

/-- The rows of the state a slot holds. A flat orthogonal machine has them in the
region that the state lies in. -/
def held_rows (view : View E) (place : Slot) : List (StateTransition E) :=
  let held := (view.state place).ident
  if tree.size = 1 then tree.rows place held
  else (tree.node place.node).rows held

/-- The rows of all active states. -/
def current_rows (view : View E) : List (StateTransition E) :=
  ((List.range tree.size).filter (tree.active view)).flatMap fun node =>
    (tree.slots node).flatMap (tree.held_rows view)

/-- A machine of one table is orthogonal, and `discover_regions` has put no state
of the table into two of its regions. -/
structure Discovered : Prop where
  orthogonal : tree.size = 1 → (tree.node 0).orthogonal = true
  apart : (tree.node 0).regions.Pairwise fun first second =>
    ∀ state ∈ first.states, state ∉ second.states

variable {tree} {view : View E} {row : StateTransition E}

theorem mem_current_rows :
    row ∈ tree.current_rows view ↔
      ∃ place, tree.Placed place ∧ tree.active view place.node = true ∧
        row ∈ tree.held_rows view place := by
  unfold current_rows
  simp only [List.mem_flatMap, List.mem_filter, List.mem_range]
  constructor
  · rintro ⟨node, ⟨inside, active⟩, place, among, held⟩
    obtain ⟨rfl, region⟩ := mem_slots.mp among
    exact ⟨place, ⟨inside, region⟩, active, held⟩
  · rintro ⟨place, ⟨inside, region⟩, active, held⟩
    exact ⟨place.node, ⟨inside, active⟩, place, mem_slots.mpr ⟨rfl, region⟩, held⟩

/-- The rows a dispatch looks at are among those of the state. -/
theorem held_rows_of_rows {place : Slot}
    (among : row ∈ tree.rows place (view.state place).ident) :
    row ∈ tree.held_rows view place := by
  unfold held_rows
  dsimp only
  split
  · exact among
  · unfold rows at among
    dsimp only at among
    split at among
    · exact among
    · cases among

end Tables

def Machine.current_rows : Machine E → View E → List (StateTransition E)
  | .flat code, view => code.table.rows (view.state Flat.slot).ident
  | .tree code, view => code.current_rows view

def Machine.Discovered : Machine E → Prop
  | .flat _ => True
  | .tree code => code.Discovered

/-! ### What is visited -/

section Visits

variable {T : Type} [LinearOrder T] {event_type : StateTransition E → Option T}
  {view : View E} {type : T}

theorem Flat.mem_visit_current_events {flat : Flat E} :
    type ∈ flat.visit_current_events event_type view ↔
      ∃ row ∈ flat.table.rows (view.state Flat.slot).ident,
        row.query event_type = some type := by
  unfold Flat.visit_current_events
  rw [mem_keys, List.mem_filterMap]

namespace Tables

variable {tree : Tables E}

omit [LinearOrder T] in
theorem mem_node_queries {node : Nat} {query : Query E T} :
    query ∈ tree.node_queries event_type node ↔
      ∃ row ∈ (tree.node node).transitions, ∃ type,
        row.query event_type = some type ∧
        ⟨type, fun view => tree.active view node &&
          (tree.slots node).any fun place =>
            (view.state place).ident = row.in_state.ident⟩ = query := by
  unfold node_queries
  simp [List.mem_filterMap, Option.bind_eq_some_iff]

omit [LinearOrder T] in
theorem mem_region_queries {query : Query E T} :
    query ∈ tree.region_queries event_type ↔
      ∃ row ∈ (tree.node 0).transitions, ∃ type,
        row.query event_type = some type ∧ ∃ region,
          ((tree.node 0).regions.findIdx? fun region =>
            region.states.contains row.in_state.ident) = some region ∧
          ⟨type, fun view =>
            (view.state ⟨0, region⟩).ident = row.in_state.ident⟩ = query := by
  unfold region_queries
  simp [List.mem_filterMap, Option.bind_eq_some_iff]

omit [LinearOrder T] in
/-- A table adds a type to what is visited exactly where it is active and a state
it is in has a row for it. -/
theorem node_queries_hold {node : Nat} :
    (∃ query ∈ tree.node_queries event_type node,
        query.event_type = type ∧ query.condition view = true) ↔
      tree.active view node = true ∧ ∃ place ∈ tree.slots node,
        ∃ row ∈ (tree.node node).rows (view.state place).ident,
          row.query event_type = some type := by
  constructor
  · rintro ⟨query, among, rfl, holds⟩
    obtain ⟨row, declared, type, queried, rfl⟩ := mem_node_queries.mp among
    simp only [Bool.and_eq_true, List.any_eq_true, decide_eq_true_eq] at holds
    obtain ⟨active, place, here, held⟩ := holds
    refine ⟨active, place, here, row, ?_, queried⟩
    exact List.mem_filter.mpr ⟨declared, by simp [held]⟩
  · rintro ⟨active, place, here, row, among, queried⟩
    obtain ⟨declared, held⟩ := List.mem_filter.mp among
    refine ⟨_, mem_node_queries.mpr ⟨row, declared, type, queried, rfl⟩, rfl, ?_⟩
    simp only [Bool.and_eq_true, List.any_eq_true, decide_eq_true_eq]
    exact ⟨active, place, here, (of_decide_eq_true held).symm⟩

/-- The region that `position` finds for a state is the one the state lies in. -/
theorem Discovered.region_of (discovered : tree.Discovered) {state : E.Ident}
    {region : Nat} :
    ((tree.node 0).regions.findIdx? fun region =>
        region.states.contains state) = some region ↔
      ((tree.node 0).regions[region]?).any
        (fun region => region.states.contains state) = true := by
  rw [List.findIdx?_eq_some_iff_getElem]
  constructor
  · rintro ⟨inside, contains, _⟩
    rw [List.getElem?_eq_getElem inside]
    exact contains
  · intro lies
    obtain ⟨found, at_region, contains⟩ := Option.any_eq_true .. |>.mp lies
    obtain ⟨inside, rfl⟩ := List.getElem?_eq_some_iff.mp at_region
    refine ⟨inside, contains, fun earlier before => ?_⟩
    have apart := List.pairwise_iff_getElem.mp discovered.apart earlier region
      (by omega) inside before
    intro other
    exact apart state (by simpa using other) (by simpa using contains)

end Tables

namespace Tree

variable {tree : Tree E}

theorem active_root : tree.active view 0 = true := by
  unfold Tables.active
  rw [tree.root_depth]
  rfl

theorem mem_visit_current_events (discovered : tree.Discovered) :
    type ∈ tree.visit_current_events event_type view ↔
      ∃ row ∈ tree.current_rows view, row.query event_type = some type := by
  unfold Tables.visit_current_events
  rw [mem_event_query_calls]
  by_cases alone : tree.size = 1
  · have orthogonal := discovered.orthogonal alone
    rw [if_pos alone]
    constructor
    · rintro ⟨query, among, rfl, holds⟩
      obtain ⟨row, declared, type, queried, region, found, rfl⟩ :=
        Tables.mem_region_queries.mp among
      have held : (view.state ⟨0, region⟩).ident = row.in_state.ident :=
        of_decide_eq_true holds
      have lies := discovered.region_of.mp found
      refine ⟨row, Tables.mem_current_rows.mpr
        ⟨⟨0, region⟩, ⟨tree.size_pos, ?_⟩, active_root, ?_⟩, queried⟩
      · obtain ⟨_, at_region, _⟩ := Option.any_eq_true .. |>.mp lies
        exact (List.getElem?_eq_some_iff.mp at_region).1
      · unfold Tables.held_rows
        rw [if_pos alone]
        unfold Tables.rows
        dsimp only
        rw [held, lies, Bool.or_true, if_pos rfl]
        exact List.mem_filter.mpr ⟨declared, by simp⟩
    · rintro ⟨row, among, queried⟩
      obtain ⟨place, ⟨inside, _⟩, _, held⟩ := Tables.mem_current_rows.mp among
      obtain ⟨node, region⟩ := place
      have root : node = 0 := by
        dsimp only at inside
        omega
      subst root
      unfold Tables.held_rows at held
      rw [if_pos alone] at held
      unfold Tables.rows at held
      dsimp only at held
      rw [orthogonal, Bool.not_true, Bool.false_or] at held
      split at held
      · rename_i lies
        obtain ⟨declared, source⟩ := List.mem_filter.mp held
        have same : row.in_state.ident = (view.state ⟨0, region⟩).ident :=
          of_decide_eq_true source
        refine ⟨_, Tables.mem_region_queries.mpr ⟨row, declared, type, queried,
          region, ?_, rfl⟩, rfl, by simp [same]⟩
        rw [same]
        exact discovered.region_of.mpr lies
      · cases held
  · rw [if_neg alone]
    have placed (node : Nat) :
        node ∈ 0 :: tree.references ↔ node < tree.size := by
      have size_pos := tree.size_pos
      simp only [List.mem_cons, Tables.mem_references]
      omega
    constructor
    · rintro ⟨query, among, same, holds⟩
      obtain ⟨node, inside, added⟩ := List.mem_flatMap.mp among
      obtain ⟨active, place, here, row, held, queried⟩ :=
        Tables.node_queries_hold.mp ⟨query, added, same, holds⟩
      obtain ⟨rfl, region⟩ := Tables.mem_slots.mp here
      refine ⟨row, Tables.mem_current_rows.mpr
        ⟨place, ⟨(placed _).mp inside, region⟩, active, ?_⟩, queried⟩
      unfold Tables.held_rows
      rw [if_neg alone]
      exact held
    · rintro ⟨row, among, queried⟩
      obtain ⟨place, ⟨inside, region⟩, active, held⟩ :=
        Tables.mem_current_rows.mp among
      unfold Tables.held_rows at held
      rw [if_neg alone] at held
      obtain ⟨query, added, same, holds⟩ := Tables.node_queries_hold.mpr
        ⟨active, place, Tables.mem_slots.mpr ⟨rfl, region⟩, row, held, queried⟩
      exact ⟨query, List.mem_flatMap.mpr ⟨_, (placed _).mpr inside, added⟩, same,
        holds⟩

end Tree

theorem Machine.mem_visit_current_events {machine : Machine E}
    (discovered : machine.Discovered) :
    type ∈ machine.visit_current_events event_type view ↔
      ∃ row ∈ machine.current_rows view, row.query event_type = some type := by
  cases machine with
  | flat code => exact code.mem_visit_current_events
  | tree code => exact code.mem_visit_current_events discovered

theorem Machine.visit_current_events_nodup {machine : Machine E} :
    (machine.visit_current_events event_type view).Nodup := by
  cases machine with
  | flat code => exact keys_nodup _
  | tree code => exact event_query_calls_nodup _ _

end Visits

/-! ### Events of other types -/

/-- No row of an active state is for the event, nor for any unexpected event. -/
def Machine.Unheard (machine : Machine E) (view : View E) (event : E.Ident) :
    Prop :=
  ∀ row ∈ machine.current_rows view,
    row.listens event = false ∧ row.anonymous .unexpected = false

/-- The types that the rows for an event declare are not visited, and no active
state has a row for any unexpected event. -/
def Machine.Unvisited {T : Type} [LinearOrder T]
    (event_type : StateTransition E → Option T) (machine : Machine E)
    (view : View E) (event : E.Ident) : Prop :=
  (∀ row ∈ machine.tables.transitions, row.listens event = true →
    ∃ type, event_type row = some type ∧
      type ∉ machine.visit_current_events event_type view) ∧
    ∀ row ∈ machine.current_rows view, row.anonymous .unexpected = false

theorem Machine.declared_of_current {machine : Machine E} {view : View E}
    {row : StateTransition E} (current : row ∈ machine.current_rows view) :
    row ∈ machine.tables.transitions := by
  unfold Tables.transitions
  rw [List.mem_flatMap]
  cases machine with
  | flat code =>
    exact ⟨0, List.mem_range.mpr Nat.one_pos, List.mem_of_mem_filter current⟩
  | tree code =>
    obtain ⟨place, ⟨inside, _⟩, _, held⟩ := Tables.mem_current_rows.mp current
    refine ⟨place.node, List.mem_range.mpr inside, ?_⟩
    unfold Tables.held_rows at held
    dsimp only at held
    split at held
    · exact (Tables.mem_rows held).1
    · exact List.mem_of_mem_filter held

theorem Machine.Unvisited.unheard {T : Type} [LinearOrder T]
    {event_type : StateTransition E → Option T} {machine : Machine E}
    (discovered : machine.Discovered) {view : View E} {event : E.Ident}
    (unvisited : machine.Unvisited event_type view event) :
    machine.Unheard view event := by
  intro row current
  refine ⟨?_, unvisited.2 row current⟩
  by_contra heard
  have listens : row.listens event = true := by simpa using heard
  obtain ⟨type, declares, missing⟩ :=
    unvisited.1 row (Machine.declared_of_current current) listens
  apply missing
  rw [Machine.mem_visit_current_events discovered]
  exact ⟨row, current, by rwa [StateTransition.query_of_listens _ listens]⟩

/-- What happens around the turns of a dispatch that comes to nothing. -/
def Happening.passive : Happening E → Prop
  | .turn .. | .dequeued .. | .failed => True
  | _ => False

/-- Dispatches have begun and ended, and nothing has come of it. -/
def Undisturbed (core core' : Core E) : Prop :=
  ∃ counted added, core' = { core with
    serial := core.serial + counted
    trace := added ++ core.trace } ∧ ∀ happening ∈ added, happening.passive

theorem Undisturbed.of_idle {core core' : Core E} (idle : Idle core core') :
    Undisturbed core core' := by
  obtain ⟨counted, added, rfl, turns⟩ := idle
  refine ⟨counted, added, rfl, fun happening among => ?_⟩
  have is_turn := turns happening among
  cases happening <;> trivial

namespace Tables

variable {tree : Tables E} {view : View E} {place : Slot} {event : E.Ident}

theorem dispatch_arm_eq_nil
    (unheard : ∀ row ∈ tree.rows place (view.state place).ident,
      row.listens event = false ∧ row.anonymous .unexpected = false) :
    tree.dispatch_arm place (view.state place).ident event = [] := by
  have normal : (tree.rows place (view.state place).ident).filter
      (fun row => row.triggered .normal event) = [] := by
    apply List.filter_eq_nil_iff.mpr
    intro row among
    have deaf := (unheard row among).1
    simp only [StateTransition.listens, Bool.or_eq_false_iff] at deaf
    simp [deaf.1]
  have unexpected : (tree.rows place (view.state place).ident).find?
      (fun row => row.triggered .unexpected event) = none := by
    apply List.find?_eq_none.mpr
    intro row among
    have deaf := (unheard row among).1
    simp only [StateTransition.listens, Bool.or_eq_false_iff] at deaf
    simp [deaf.2]
  have any : (tree.rows place (view.state place).ident).find?
      (fun row => row.anonymous .unexpected) = none := by
    apply List.find?_eq_none.mpr
    intro row among
    simp [(unheard row among).2]
  unfold dispatch_arm
  simp only [normal, unexpected, any]

end Tables

/-- The arms of all active slots are empty: no guard or action of a row can be
called for the event. -/
def Machine.Armless (machine : Machine E) (view : View E) (event : E.Ident) :
    Prop :=
  match machine with
  | .flat code => code.dispatch_arm (view.state Flat.slot).ident event = []
  | .tree code => ∀ place, code.Placed place →
      code.active view place.node = true →
        code.dispatch_arm place (view.state place).ident event = []

theorem Machine.Unheard.armless {machine : Machine E} {view : View E}
    {event : E.Ident} (unheard : machine.Unheard view event) :
    machine.Armless view event := by
  cases machine with
  | flat code =>
    have none_of (shared : StateTransition E → Bool)
        (silent : ∀ row ∈ code.table.rows (view.state Flat.slot).ident,
          shared row = false) :
        code.mapping (view.state Flat.slot).ident shared = [] := by
      unfold Flat.mapping
      rw [List.filter_eq_nil_iff.mpr fun row among => by simp [silent row among]]
      rfl
    have deaf (row : StateTransition E)
        (among : row ∈ code.table.rows (view.state Flat.slot).ident) :
        row.triggered .normal event = false ∧
          row.triggered .unexpected event = false :=
      Bool.or_eq_false_iff.mp (unheard row among).1
    show code.dispatch_arm _ event = []
    unfold Flat.dispatch_arm
    rw [none_of _ fun row among => (deaf row among).1,
      none_of _ fun row among => (deaf row among).2,
      none_of _ fun row among => (unheard row among).2]
    rfl
  | tree code =>
    intro place placed active
    apply Tables.dispatch_arm_eq_nil
    intro row among
    exact unheard row (Tables.mem_current_rows.mpr
      ⟨place, placed, active, Tables.held_rows_of_rows among⟩)

theorem Tables.placed_of_dispatch_order {tree : Tree E} {place : Slot}
    (among : place ∈ tree.dispatch_order) : tree.Placed place := by
  have of_slots {node : Nat} (inside : node < tree.size)
      (here : place ∈ tree.slots node) : tree.Placed place := by
    obtain ⟨rfl, region⟩ := Tables.mem_slots.mp here
    exact ⟨inside, region⟩
  have of_blocks {node : Nat} (block : node ∈ tree.blocks) :
      node < tree.size := (Tables.mem_blocks.mp block).2
  unfold Tables.dispatch_order at among
  split at among
  · obtain ⟨region, here, among⟩ := List.mem_flatMap.mp among
    rcases List.mem_append.mp among with inner | last
    · obtain ⟨node, block, here⟩ := List.mem_flatMap.mp inner
      exact of_slots (of_blocks (List.mem_of_mem_filter block)) here
    · rw [List.mem_singleton.mp last]
      obtain ⟨root, inside⟩ := Tables.mem_slots.mp here
      refine ⟨?_, root ▸ inside⟩
      rw [root]
      exact tree.size_pos
  · rcases List.mem_append.mp among with inner | root
    · obtain ⟨node, block, here⟩ := List.mem_flatMap.mp inner
      exact of_slots (of_blocks block) here
    · exact of_slots tree.size_pos root

/-- An event without arms is rejected, and nothing else happens. -/
theorem Machine.run_event_armless {machine : Machine E} {calls : Calls E}
    {event : Event E} {core : Core E}
    (armless : machine.Armless core.view event.ident) :
    ∃ core', machine.run_event calls event core = .error .invalid_event core' ∧
      Idle core core' := by
  cases machine with
  | tree code =>
    apply tree_run_event_idle
    rintro ⟨_, heard⟩
    apply heard
    intro place among active
    unfold Tables.silent Tables.arm
    rw [armless place (Tables.placed_of_dispatch_order among) active]
    simp
  | flat code =>
    have empty : (code.dispatch_arm (core.view.state Flat.slot).ident
        event.ident).isEmpty = true := by
      rw [armless]
      rfl
    show ∃ core', code.run_event calls event core = _ ∧ _
    unfold Flat.run_event
    rw [get_bind_run]
    by_cases refused : E.dispatch core.view.world event.ident = false
    · rw [refused]
      exact ⟨core, rfl, .refl⟩
    have allowed : E.dispatch core.view.world event.ident = true := by
      simpa using refused
    rw [allowed]
    show ∃ core', (attempt (code.dispatch_code calls core.serial event) >>= _)
      { core with serial := core.serial + 1 } = _ ∧ _
    rw [bind_run]
    unfold attempt
    rw [Flat.dispatch_code_run, if_pos empty]
    exact ⟨_, rfl, (Idle.counted core).turn core.serial event Flat.slot core.view⟩

/-- What a call ends with that finds no row: an asynchronous machine may have no
room for its event. -/
def Machine.refusal (machine : Machine E) (core : Core E) : Fault E :=
  if machine.tables.async_queue = true ∧
      machine.tables.capacity ≤ core.pending.length then .queue_full
  else .invalid_event

theorem Machine.process_event_armless {machine : Machine E} {event : Event E}
    {core : Core E} (armless : machine.Armless core.view event.ident)
    (fuel : Nat) :
    ∃ core', machine.process_event (fuel + 2) event core =
        .error (machine.refusal core) core' ∧ Undisturbed core core' := by
  cases queued : machine.tables.async_queue with
  | false =>
    obtain ⟨core', run, idle⟩ := @Machine.run_event_armless _ machine
      ⟨machine.process_event (fuel + 1), fuel + 1⟩ event core armless
    refine ⟨core', ?_, .of_idle idle⟩
    rw [Machine.process_event_sync queued, run, Machine.refusal,
      if_neg (by simp [queued])]
  | true =>
    rw [Machine.process_event_async queued, bind_run]
    unfold process
    rw [get_bind_run]
    by_cases room : core.pending.length < machine.tables.capacity
    · rw [if_pos room]
      obtain ⟨core', run, idle⟩ := @Machine.run_event_armless _ machine
        ⟨machine.process_event (fuel + 1), fuel + 1⟩ event
        (core.note (.dequeued event core.pending core.view)) armless
      obtain ⟨counted, added, rfl, turns⟩ := Undisturbed.of_idle idle
      refine ⟨_, ?_, counted, .failed ::
        (added ++ [.dequeued event core.pending core.view]), rfl, ?_⟩
      · show machine.run_pending _ (fuel + 1)
          { core with pending := event :: core.pending } = _
        rw [Machine.run_pending_succ]
        show (marking _ (machine.run_event _ event) >>= _)
          (core.note (.dequeued event core.pending core.view)) = _
        rw [bind_run]
        unfold marking marked
        rw [run, Machine.refusal, if_neg (by simp [room])]
        simp [Core.note]
      · intro happening among
        simp only [List.mem_cons, List.mem_append, List.not_mem_nil,
          or_false] at among
        rcases among with rfl | inner | rfl
        · trivial
        · exact turns happening inner
        · trivial
    · rw [if_neg room, Machine.refusal, if_pos ⟨queued, by omega⟩]
      exact ⟨core, rfl, 0, [], rfl, by simp⟩

/-- In every configuration a machine visits each type once, and exactly the types
of the rows that its active states have for events of one name.  An event whose
types it does not visit finds no row, and its call leaves the machine as it was. -/
theorem visit_current_events_agrees {T : Type} [LinearOrder T]
    (event_type : StateTransition E → Option T) {machine : Machine E}
    (discovered : machine.Discovered) (core : Core E) :
    (machine.visit_current_events event_type core.view).Nodup ∧
      (∀ type, type ∈ machine.visit_current_events event_type core.view ↔
        ∃ row ∈ machine.current_rows core.view,
          row.query event_type = some type) ∧
      ∀ event : Event E,
        machine.Unvisited event_type core.view event.ident →
          machine.Armless core.view event.ident ∧
          ∀ fuel, ∃ core', machine.process_event (fuel + 2) event core =
            .error (machine.refusal core) core' ∧ Undisturbed core core' := by
  refine ⟨Machine.visit_current_events_nodup, ?_, ?_⟩
  · exact fun type => Machine.mem_visit_current_events discovered
  · intro event unvisited
    have armless := (unvisited.unheard discovered).armless
    exact ⟨armless, Machine.process_event_armless armless⟩

/-! ### A terminal state with a row, and a full queue -/

/-- The payload of an event is named by its number. -/
def numbered (row : StateTransition sample) : Option Nat :=
  match row.event.ident with
  | .event number => some number
  | _ => none

/-- Two regions that end in `X`. The row from `X` makes it a state of the first
one. -/
def finished : Tree sample where
  size := 1
  node _ :=
    { owner := 0, variant := Name.X, depth := 0
      transitions :=
        [{ in_state := plain 0, event := on 0, out_state := { ident := Name.X } },
         { in_state := { ident := Name.X }, event := on 1,
           out_state := plain 0 },
         { in_state := plain 1, event := on 2, out_state := { ident := Name.X } }]
      regions := [⟨Name.state 0, [Name.state 0, Name.X]⟩,
        ⟨Name.state 1, [Name.state 1]⟩] }
  size_pos := Nat.one_pos
  root_depth := by decide
  owner_lt := by decide
  depth_owner := by decide
  regions_pos := by decide
  variants := by decide
  in_composite := by decide
  out_composite := by decide

theorem finished_discovered : (Machine.tree finished).Discovered :=
  ⟨by decide, by decide⟩

/-- The second region ends. -/
def finished_run : Core sample :=
  final (finished.process_event 5 ⟨Name.event 2, ()⟩) (finished.new ())

/-- A row that asks for more events than the queue of its machine holds. -/
def crowded : Flat sample where
  table := scalar 0 [1]
    [{ in_state := plain 0, event := on 0,
       process_events := [⟨Name.event 1, ()⟩, ⟨Name.event 1, ()⟩],
       out_state := plain 0, internal_transition := true },
     { in_state := plain 1, event := on 1, out_state := plain 0 }]
  async_queue := true
  capacity := 1

def crowded_run : Core sample :=
  final (crowded.process_event 5 ⟨Name.event 0, ()⟩) (crowded.new ())

theorem crowded_unvisited :
    (Machine.flat crowded).Unvisited numbered crowded_run.view
      (Name.event 1) := by
  constructor
  · intro row among listens
    refine ⟨1, ?_, by decide +kernel⟩
    simp only [StateTransition.listens, StateTransition.triggered,
      Bool.or_eq_true, Bool.and_eq_true, decide_eq_true_eq] at listens
    unfold numbered
    rcases listens with ⟨_, named⟩ | ⟨_, named⟩
    · rw [named]
    · rw [named]
  · decide +kernel

/-- A region is in a state that has a row for a type, and the type is not
visited.  A machine with a full queue has no row for an event, and reports the
queue. -/
theorem visits_disagree :
    ((Machine.tree finished).Reaches finished_run ∧
      ∃ row ∈ (finished.node 0).rows (finished_run.view.state ⟨0, 1⟩).ident,
        row.query numbered = some 1 ∧
          1 ∉ finished.visit_current_events numbered finished_run.view) ∧
      (Machine.flat crowded).Reaches crowded_run ∧
        (Machine.flat crowded).Unvisited numbered crowded_run.view
          (Name.event 1) ∧
        ∃ core', (Machine.flat crowded).process_event 5 ⟨Name.event 1, ()⟩
          crowded_run = .error .queue_full core' := by
  refine ⟨⟨?_, by decide +kernel⟩, ?_, crowded_unvisited, ?_⟩
  · exact (@Machine.Reaches.new sample (.tree finished) ()).process_event 5
      ⟨Name.event 2, ()⟩
  · exact (@Machine.Reaches.new sample (.flat crowded) ()).process_event 5
      ⟨Name.event 0, ()⟩
  · have discovered : (Machine.flat crowded).Discovered := trivial
    have armless := (crowded_unvisited.unheard discovered).armless
    obtain ⟨core', run, _⟩ := @Machine.process_event_armless sample
      (.flat crowded) ⟨Name.event 1, ()⟩ crowded_run armless 3
    refine ⟨core', run.trans ?_⟩
    rw [Machine.refusal, if_pos (by decide +kernel)]

theorem visit_current_events_agrees_finished :
    ((Machine.tree finished).visit_current_events numbered
        finished_run.view).Nodup ∧
      (∀ type, type ∈ (Machine.tree finished).visit_current_events numbered
          finished_run.view ↔
        ∃ row ∈ (Machine.tree finished).current_rows finished_run.view,
          row.query numbered = some type) ∧
      ∀ event : Event sample,
        (Machine.tree finished).Unvisited numbered finished_run.view
            event.ident →
          (Machine.tree finished).Armless finished_run.view event.ident ∧
          ∀ fuel, ∃ core', (Machine.tree finished).process_event (fuel + 2)
              event finished_run =
            .error ((Machine.tree finished).refusal finished_run) core' ∧
              Undisturbed finished_run core' :=
  visit_current_events_agrees numbered finished_discovered finished_run

end SmlRs.Macros
