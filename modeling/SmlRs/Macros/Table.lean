/-
Module: SmlRs.Macros.Table
Purpose: The rows of a table, what the generators look up in them, and the tree
  the tables of one machine form.
Trusted boundary: none
Main exports: Environment, Event, StateTransition, Table, Slot, Tree
-/
import Mathlib.Algebra.Ring.Nat
import Mathlib.Data.List.Sort
import SmlRs.Macros.Guard

namespace SmlRs.Macros

/-!
Names of states, events and callbacks are identifiers that are only compared.
The payloads of states, events and callback errors are values of one type.
-/

/-- What the generated code is compiled against: the callbacks of the context
trait and the dispatch slot of the policy.  A guard takes `&self`: it reads the
world and leaves it as it is. -/
structure Environment where
  Ident : Type
  Data : Type
  /-- The context object and the policy. -/
  World : Type
  decEq : DecidableEq Ident
  /-- `Default::default()`. -/
  default : Data
  /-- The terminal state. -/
  X : Ident
  guard : Ident → List Data → World → Except Data Bool
  action : Ident → List Data → World → Except Data Data × World
  dispatch : World → Ident → Bool
  dispatch_candidate : World → Ident → Ident → Nat → Bool

instance (E : Environment) : DecidableEq E.Ident := E.decEq

/-- A value of a generated states enum. -/
structure StateValue (E : Environment) where
  ident : E.Ident
  data : E.Data

/-- A value of the generated events enum. -/
structure Event (E : Environment) where
  ident : E.Ident
  data : E.Data

instance [DecidableEq E.Data] : DecidableEq (Event E) := fun first second =>
  decidable_of_iff (first.ident = second.ident ∧ first.data = second.data) (by
    cases first
    cases second
    simp)

inductive EventKind where
  | normal
  | unexpected
  | completion
  | entry
  | exit
  | exception
deriving DecidableEq, Repr

/-- The event of a row, as it is declared. -/
structure Trigger (E : Environment) where
  kind : EventKind
  ident : E.Ident
  wildcard : Bool := false
  data_type : Bool := false

/-- The source or the target of a row.  `composite` is set for `state<Sub>` of a
table of the tree. -/
structure State (E : Environment) where
  ident : E.Ident
  data_type : Bool := false
  composite : Bool := false
  history : Bool := false

/-- `eval [guard] / action` at a position of the sequence. -/
structure EvalAction (E : Environment) where
  position : Nat
  guard : Guard E.Ident
  action : E.Ident

/-- A row. `actions` is the first action with the additional ones behind it. -/
structure StateTransition (E : Environment) where
  in_state : State E
  event : Trigger E
  guard : Option (Guard E.Ident) := none
  actions : List E.Ident := []
  eval_actions : List (EvalAction E) := []
  process_events : List (Event E) := []
  defer : Bool := false
  out_state : State E
  internal_transition : Bool := false

variable {E : Environment}

/-- One item of a lowered action sequence. -/
inductive Item (E : Environment) where
  | call (action : E.Ident)
  | eval (guard : Guard E.Ident) (action : E.Ident)

/-- `action_sequence`, for a number of positions from `position` on.  A row with
a gap in its sequence is rejected. -/
def action_sequence (evals : List (EvalAction E)) :
    Nat → Nat → List E.Ident → List (Item E)
  | 0, _, _ => []
  | positions + 1, position, actions =>
      match evals.find? (·.position = position) with
      | some eval =>
          .eval eval.guard eval.action ::
            action_sequence evals positions (position + 1) actions
      | none =>
          match actions with
          | [] => []
          | action :: rest =>
              .call action ::
                action_sequence evals positions (position + 1) rest

namespace StateTransition

variable (row : StateTransition E)

def items : List (Item E) :=
  action_sequence row.eval_actions
    (row.actions.length + row.eval_actions.length) 0 row.actions

/-- Whether callbacks of the row receive the data of its source state. -/
def state_arg : Bool :=
  row.in_state.data_type && !row.in_state.composite

/-- `callback_args`. -/
def callback_args (state_data event_data : E.Data) : List E.Data :=
  (if row.state_arg then [state_data] else []) ++
    if row.event.data_type then [event_data] else []

def target_has_data : Bool :=
  row.out_state.data_type && !row.out_state.composite

/-- Whether the last action makes the data of the target state. -/
def produces_state : Bool :=
  !row.internal_transition && row.target_has_data && !row.actions.isEmpty

/-- `exception_row_moves`. -/
def exception_row_moves : Bool :=
  !row.internal_transition && row.out_state.ident ≠ row.in_state.ident

/-- Whether the row is for this event: same kind and, unless it is a wildcard,
same name. -/
def triggered (kind : EventKind) (ident : E.Ident) : Bool :=
  row.event.kind = kind && !row.event.wildcard && row.event.ident = ident

/-- Whether the row is a wildcard of this kind. -/
def anonymous (kind : EventKind) : Bool :=
  row.event.kind = kind && row.event.wildcard

end StateTransition

/-- A region, as `discover_regions` finds it. -/
structure Region (E : Environment) where
  initial : E.Ident
  states : List E.Ident

/-- A table with a region for each of its starred rows.  A scalar table has one
region with all of its states. -/
structure Table (E : Environment) where
  transitions : List (StateTransition E)
  regions : List (Region E)

namespace Table

variable (table : Table E)

def orthogonal : Bool :=
  1 < table.regions.length

/-- The rows from a state, in table order. -/
def rows (state : E.Ident) : List (StateTransition E) :=
  table.transitions.filter fun row => row.in_state.ident = state

/-- The actions of the last lifecycle row of a kind from a state. -/
def hooks (kind : EventKind) (state : E.Ident) : List E.Ident :=
  (((table.rows state).filter fun row => row.event.kind = kind).getLast?.map
    (·.actions)).getD []

/-- Whether a state is in `state_types`. -/
def has_data (state : E.Ident) : Bool :=
  table.transitions.any fun row =>
    (row.in_state.ident = state && row.state_arg) ||
      (row.out_state.ident = state && row.target_has_data)

/-- Whether a state is in `collect_states`. -/
def has_state (state : E.Ident) : Bool :=
  table.transitions.any fun row =>
    row.in_state.ident = state ||
      (!row.internal_transition && row.out_state.ident = state)

def history : Bool :=
  table.transitions.any fun row => row.in_state.history

end Table

/-- A place that holds an active state: a region of a table. The only region of
a scalar table is region 0. -/
structure Slot where
  node : Nat
  region : Nat
deriving DecidableEq, Repr

/-- A table in the tree: the index of its owner, the state of the owner that is
active while the table is, and how deep it lies. -/
structure Node (E : Environment) extends Table E where
  owner : Nat
  variant : E.Ident
  depth : Nat

/-- The tables of one machine: the root at 0, then its descendants breadth
first.  A flat orthogonal machine is a root alone. -/
structure Tables (E : Environment) where
  size : Nat
  node : Nat → Node E
  async_queue : Bool := false
  /-- How many events the deferred and the process queue hold. -/
  capacity : Nat := 16

namespace Tables

variable (tree : Tables E)

/-- The nodes behind the root, breadth first. -/
def references : List Nat :=
  List.range' 1 (tree.size - 1)

/-- The slots of a table, in region order. -/
def slots (node : Nat) : List Slot :=
  (List.range (tree.node node).regions.length).map fun region => ⟨node, region⟩

/-- `tree_children`. -/
def tree_children (owner : Nat) : List Nat :=
  tree.references.filter fun node => (tree.node node).owner = owner

/-- The child of a table that is active while the table is in a state. -/
def child (owner : Nat) (state : E.Ident) : Option Nat :=
  (tree.tree_children owner).find? fun node => (tree.node node).variant = state

/-- All rows of the tree. -/
def transitions : List (StateTransition E) :=
  (List.range tree.size).flatMap fun node => (tree.node node).transitions

def has_deferred_events : Bool :=
  tree.transitions.any (·.defer)

def has_exception_handlers : Bool :=
  tree.transitions.any fun row => row.event.kind = .exception

/-- `track_settle_sites`. -/
def track_settle_sites : Bool :=
  tree.has_exception_handlers &&
    (List.range tree.size).any fun node => (tree.node node).orthogonal

/-- Whether `generate_code` lowers the tree without `generate_multi_code`. -/
def single_child : Bool :=
  tree.size = 2 && !(tree.node 0).orthogonal && !(tree.node 1).orthogonal

/-- `tree_is_descendant`, climbing a number of owners. -/
def climbs (ancestor : Nat) : Nat → Nat → Bool
  | 0, _ => false
  | depth + 1, node =>
      (tree.node node).owner = ancestor ||
        climbs ancestor depth (tree.node node).owner

def tree_is_descendant (node ancestor : Nat) : Bool :=
  tree.climbs ancestor (tree.node node).depth node

/-- `tree_descendant_region`, climbing a number of owners. -/
def climbs_region (ancestor : Nat) : Nat → Nat → Option Nat
  | 0, _ => none
  | depth + 1, node =>
      if (tree.node node).owner = ancestor then
        (tree.node ancestor).regions.findIdx? fun region =>
          region.states.contains (tree.node node).variant
      else climbs_region ancestor depth (tree.node node).owner

def tree_descendant_region (node ancestor : Nat) : Option Nat :=
  tree.climbs_region ancestor (tree.node node).depth node

/-- The first settle site of a table: children in order, then the root. -/
def site_start (node : Nat) : Nat :=
  let before := if node = 0 then tree.references else List.range' 1 (node - 1)
  (before.map fun node => (tree.node node).regions.length).sum

def site (place : Slot) : Nat :=
  tree.site_start place.node + place.region

/-- `TreeSettleSites::subtree`. -/
def subtree (node : Nat) : List Nat :=
  (tree.references.filter fun candidate =>
      candidate = node || tree.tree_is_descendant candidate node).flatMap
    fun node => (tree.slots node).map tree.site

/-- The path of a region in `TreeSettleSites::region_paths`. -/
def region_path (place : Slot) : List Nat :=
  tree.site place ::
    (tree.references.filter fun candidate =>
        tree.tree_descendant_region candidate place.node = some place.region).flatMap
      fun node => (tree.slots node).map tree.site

/-- The order of the generated child blocks: by falling depth, and breadth first
within a depth. -/
def blocks : List Nat :=
  tree.references.insertionSort fun first second =>
    (tree.node second).depth ≤ (tree.node first).depth

end Tables

/-- Tables that form a tree: every table lies behind its owner and one level
below it, the children of a table have different variants, and the rows name a
composite state exactly where there is a child. -/
structure Tree (E : Environment) extends Tables E where
  size_pos : 0 < size
  root_depth : (node 0).depth = 0
  owner_lt : ∀ i < size, 0 < i → (node i).owner < i
  depth_owner : ∀ i < size, 0 < i →
    (node i).depth = (node (node i).owner).depth + 1
  regions_pos : ∀ i < size, 0 < (node i).regions.length
  variants : ∀ i < size,
    ((toTables.tree_children i).map fun j => (node j).variant).Nodup
  in_composite : ∀ i < size, ∀ row ∈ (node i).transitions,
    row.in_state.composite = (toTables.child i row.in_state.ident).isSome
  out_composite : ∀ i < size, ∀ row ∈ (node i).transitions,
    row.internal_transition = false →
      row.out_state.composite = (toTables.child i row.out_state.ident).isSome

end SmlRs.Macros
