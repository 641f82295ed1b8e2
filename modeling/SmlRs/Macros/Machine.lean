/-
Module: SmlRs.Macros.Machine
Purpose: The code assembled for a whole tree: dispatch, completion steps,
  recovery, stabilization, and the calls a user makes.
Trusted boundary: none
Main exports: active, dispatch_blocks, parent_dispatch, completion_step,
  recover_walk, stabilize, process_event, initialize_unlocked
-/
import SmlRs.Macros.Row

namespace SmlRs.Macros

open Lib

variable {E : Environment}

namespace Tables

variable (tree : Tables E)

/-! ### Active tables -/

/-- The conditions of `tree_active_condition` on a number of owners. -/
def holds_path (view : View E) : Nat → Nat → Bool
  | 0, _ => true
  | depth + 1, node =>
      ((tree.slots (tree.node node).owner).any fun place =>
          (view.state place).ident = (tree.node node).variant) &&
        holds_path view depth (tree.node node).owner

/-- `tree_active_condition`. -/
def active (view : View E) (node : Nat) : Bool :=
  tree.holds_path view (tree.node node).depth node

/-! ### Dispatch -/

/-- The locals of a dispatch: the shared flag and the flags of the tables. -/
structure Flags where
  handled : Bool
  of_node : Nat → Bool

/-- Whether a table nested in a region has set its flag. -/
def descendant_handled (flags : Nat → Bool) (place : Slot) : Bool :=
  tree.references.any fun node =>
    tree.tree_descendant_region node place.node = some place.region &&
      flags node

section Dispatch

variable (calls : Calls E) (serial : Nat) (event : Event E)

/-- A turn that is left out where the event is already handled. -/
def bubbles (handled : Bool) (turn : Effect E Bool) : Effect E Bool :=
  if handled then pure false else turn

/-- The turn of a scalar child, if it is active. -/
def scalar_turn (node : Nat) : Effect E Bool := do
  let core ← get
  if tree.active core.view node then
    tree.dispatch_code calls serial ⟨node, 0⟩ event
  else pure false

/-- The block of a scalar child. -/
def scalar_block (flags : Flags) (node : Nat) : Effect E Flags := do
  let handled ← tree.scalar_turn calls serial event node
  pure ⟨flags.handled || handled, Function.update flags.of_node node handled⟩

/-- One region of an orthogonal child: it has its turn unless a table nested in
it has handled the event. -/
def region_block (flags : Nat → Bool) (node_handled : Bool) (place : Slot) :
    Effect E Bool := do
  let descendant_handled := tree.descendant_handled flags place
  let handled ← bubbles descendant_handled
    (tree.dispatch_code calls serial place event)
  pure (node_handled || descendant_handled || handled)

def region_blocks (flags : Nat → Bool) (node : Nat) : Effect E Bool :=
  (tree.slots node).foldlM (tree.region_block calls serial event flags) false

/-- The block of an orthogonal child. -/
def orthogonal_block (flags : Flags) (node : Nat) : Effect E Flags := do
  let core ← get
  if tree.active core.view node then do
    let node_handled ← tree.region_blocks calls serial event flags.of_node node
    pure ⟨flags.handled || node_handled,
      Function.update flags.of_node node node_handled⟩
  else pure { flags with of_node := Function.update flags.of_node node false }

def child_block (flags : Flags) (node : Nat) : Effect E Flags :=
  if (tree.node node).orthogonal then
    tree.orthogonal_block calls serial event flags node
  else tree.scalar_block calls serial event flags node

/-- The child blocks in the order of their list. -/
def dispatch_blocks (nodes : List Nat) (flags : Flags) : Effect E Flags :=
  nodes.foldlM (tree.child_block calls serial event) flags

/-- The blocks of the tables nested in a region of the root. -/
def root_blocks (place : Slot) : List Nat :=
  tree.blocks.filter fun node =>
    tree.tree_descendant_region node 0 = some place.region

/-- One region of an orthogonal root behind the blocks of its descendants. -/
def root_region (any_handled : Bool) (place : Slot) : Effect E Bool := do
  let flags ← tree.dispatch_blocks calls serial event (tree.root_blocks place)
    ⟨false, fun _ => false⟩
  let handled ← bubbles flags.handled
    (tree.dispatch_code calls serial place event)
  pure (any_handled || flags.handled || handled)

/-- `parent_dispatch`. -/
def parent_dispatch : Effect E Bool :=
  if (tree.node 0).orthogonal then
    (tree.slots 0).foldlM (tree.root_region calls serial event) false
  else do
    let flags ← tree.dispatch_blocks calls serial event tree.blocks
      ⟨false, fun _ => false⟩
    if flags.handled then pure true
    else tree.dispatch_code calls serial ⟨0, 0⟩ event

end Dispatch

/-! ### Completions -/

/-- A completion step, which fails with the settle site it was in. -/
abbrev Completing (E : Environment) := EStateM (Nat × Fault E) (Core E)

/-- Whether a slot's completions are left out because its site is settled. -/
def is_settled (settled : Nat → Bool) (place : Slot) : Bool :=
  tree.track_settle_sites && settled (tree.site place)

/-- The completions of one slot, a settle site if sites are tracked. -/
def completion_site (calls : Calls E) (origin : Option (Event E))
    (settled : Nat → Bool) (place : Slot) : Completing E Bool :=
  if tree.is_settled settled place then pure false
  else
    tagged (fun fault => (tree.site place, fault))
      (fun core => core.note (.faulted place))
      (tree.completion_code calls place origin)

/-- The completions of a table. The regions of an orthogonal one have theirs one
after the other, whether an earlier one ran or not. -/
def node_completions (calls : Calls E) (origin : Option (Event E))
    (settled : Nat → Bool) (node : Nat) : Completing E Bool :=
  (tree.slots node).foldlM (fun progressed place => do
    let handled ← tree.completion_site calls origin settled place
    pure (progressed || handled)) false

/-- `completion_step`. -/
def completion_step (calls : Calls E) (origin : Option (Event E))
    (settled : Nat → Bool) : Completing E Bool :=
  (tree.blocks ++ [0]).foldlM (fun handled node => do
    let core ← get
    if handled || !tree.active core.view node then pure handled
    else tree.node_completions calls origin settled node) false

/-! ### Recovery -/

/-- The locals of the exception walk: `exception_recovery` and the sites whose
occupancy a moving row left. -/
structure Recovery where
  recovery : Option Bool
  exited : Nat → Bool

/-- Marks sites as exited. -/
def mark (exited : Nat → Bool) (path : List Nat) (moved : Bool) : Nat → Bool :=
  fun site => exited site || (moved && path.contains site)

section Recovery

variable (calls : Calls E) (serial : Nat) (error : E.Data)
  (faulting_site : Nat)

/-- One region in `generate_exception_dispatch`. -/
def region_recovery (walk : Recovery) (place : Slot) : Effect E Recovery := do
  match ← tree.exception_code calls serial place error with
  | none => pure walk
  | some moved =>
      let path := tree.region_path place
      let progress :=
        if tree.track_settle_sites then moved && path.contains faulting_site
        else moved
      pure
        { recovery := some (progress || walk.recovery = some true)
          exited :=
            mark walk.exited path (tree.track_settle_sites && moved) }

/-- A scalar child, whose row is progress only on the path of the fault. -/
def scalar_recovery (walk : Recovery) (node : Nat) : Effect E Recovery := do
  match walk.recovery with
  | some _ => pure walk
  | none =>
      match ← tree.exception_code calls serial ⟨node, 0⟩ error with
      | none => pure walk
      | some moved =>
          let path := tree.subtree node
          let progress :=
            if tree.track_settle_sites then moved && path.contains faulting_site
            else moved
          pure
            { recovery := some progress
              exited :=
                mark walk.exited path (tree.track_settle_sites && moved) }

/-- The scalar root, whose moving row leaves every site. -/
def root_recovery (walk : Recovery) : Effect E Recovery := do
  match walk.recovery with
  | some _ => pure walk
  | none =>
      match ← tree.exception_code calls serial ⟨0, 0⟩ error with
      | none => pure walk
      | some moved =>
          pure
            { recovery := some moved
              exited := fun site =>
                walk.exited site || (tree.track_settle_sites && moved) }

/-- The exception block of a table. -/
def node_recovery (walk : Recovery) (node : Nat) : Effect E Recovery := do
  let core ← get
  if !tree.active core.view node then pure walk
  else if (tree.node node).orthogonal then
    (tree.slots node).foldlM
      (tree.region_recovery calls serial error faulting_site) walk
  else if node = 0 then tree.root_recovery calls serial error walk
  else tree.scalar_recovery calls serial error faulting_site walk node

/-- The exception blocks in their order. -/
def recovery_blocks : Effect E Recovery :=
  (tree.blocks ++ [0]).foldlM
    (tree.node_recovery calls serial error faulting_site) ⟨none, fun _ => false⟩

omit serial in
/-- `recover_walk`: active descendants deepest first, then the root table. -/
def recover_walk : Effect E Recovery := do
  let core ← get
  set { core with serial := core.serial + 1 }
  note (.offered core.serial)
  tree.recovery_blocks calls core.serial error faulting_site

end Recovery

/-! ### Stabilization -/

/-- `after_recovery` with settle sites: the marks of exited sites are cleared,
and the faulting site is settled unless its path has moved. -/
def settle (settled exited : Nat → Bool) (site : Nat) (moved : Bool) :
    Nat → Bool := fun candidate =>
  (settled candidate && !exited candidate) || (!moved && candidate = site)

/-- `recovering_stabilize_body`. Returns the origin event that is still in force
at the end. -/
def stabilize_loop (calls : Calls E) :
    Nat → Option (Event E) → (Nat → Bool) → Effect E (Option (Event E))
  | 0, _, _ => throw .diverged
  | fuel + 1, origin, settled => do
      match ← attempt (tree.completion_step calls origin settled) with
      | .ok false => pure origin
      | .ok true => stabilize_loop calls fuel origin settled
      | .error (site, fault) =>
          match fault.error with
          | none => throw fault
          | some error =>
              if !tree.has_exception_handlers then throw fault
              else do
                let walk ← tree.recover_walk calls error site
                match walk.recovery with
                | none => throw fault
                | some moved => do
                    note (.recovered moved)
                    let origin := if moved then none else origin
                    if tree.track_settle_sites then
                      stabilize_loop calls fuel origin
                        (settle settled walk.exited site moved)
                    else if moved then stabilize_loop calls fuel origin settled
                    else pure origin

/-- `stabilize`. -/
def stabilize (calls : Calls E) (origin : Option (Event E)) :
    Effect E Unit := do
  let _ ← tree.stabilize_loop calls calls.fuel origin fun _ => false

/-! ### The calls of a user -/

/-- What becomes of a dispatch: whether the event was handled, and whether by an
exception row. -/
def dispatch_outcome (calls : Calls E) :
    Except (Fault E) Bool → Effect E (Bool × Bool)
  | .ok handled => pure (handled, false)
  | .error fault =>
      match fault.error with
      | none => throw fault
      | some error =>
          if !tree.has_exception_handlers then throw fault
          else do
            -- Event dispatch has no settle site: `usize::MAX`.
            let walk ← tree.recover_walk calls error (2 ^ 64 - 1)
            match walk.recovery with
            | none => throw fault
            | some _ => pure (true, true)

/-- `dispatch_attempt`. -/
def dispatch_attempt (calls : Calls E) (event : Event E) :
    Effect E (Bool × Bool) := do
  let core ← get
  set { core with serial := core.serial + 1 }
  let outcome ← attempt (tree.parent_dispatch calls core.serial event)
  tree.dispatch_outcome calls outcome

/-- One event of `__sml_process_event_unlocked`. -/
def run_event (calls : Calls E) (event : Event E) : Effect E Unit := do
  let core ← get
  if !E.dispatch core.view.world event.ident then throw .invalid_event
  else do
    let (handled, recovered) ← tree.dispatch_attempt calls event
    if handled then tree.stabilize calls (if recovered then none else some event)
    else throw .invalid_event

/-- The loop over the pending queue of an asynchronous machine. -/
def run_pending (calls : Calls E) : Nat → Effect E Unit
  | 0 => throw .diverged
  | fuel + 1 => do
      let core ← get
      match core.pending with
      | [] => pure ()
      | event :: rest => do
          set { core with pending := rest }
          note (.dequeued event rest core.view)
          marking (fun _ => .failed) (tree.run_event calls event)
          run_pending calls fuel

/-- `__sml_process_event_unlocked`, with calls nested at most `fuel` deep. -/
def process_event : Nat → Event E → Effect E Unit
  | 0, _ => throw .diverged
  | fuel + 1, event =>
      let calls := ⟨process_event fuel, fuel⟩
      if tree.async_queue then do
        process tree.capacity event
        tree.run_pending calls fuel
      else tree.run_event calls event

/-- The entry hooks of an initial state, whatever the slot holds. -/
def initial_entry (place : Slot) : Effect E Unit := do
  let core ← get
  let table := (tree.node place.node).toTable
  let initial := tree.initial place
  note (.entered place)
  action_calls (table.hooks .entry initial)
    (if table.has_data initial then [(core.view.state place).data] else [])

/-- The entries of `__sml_initialize_unlocked`. The generators of flat orthogonal
machines and of single children run the hooks of the root alone. -/
def initial_entries : Effect E Unit :=
  if tree.size = 1 then (tree.slots 0).forM tree.initial_entry
  else if tree.single_child then tree.initial_entry ⟨0, 0⟩
  else if (tree.node 0).orthogonal then
    (tree.slots 0).forM (tree.enter_slot tree.composite_entry)
  else do
    tree.initial_entry ⟨0, 0⟩
    tree.composite_entry ⟨0, 0⟩

/-- `__sml_initialize_unlocked`. -/
def initialize_unlocked (fuel : Nat) : Effect E Unit := do
  tree.initial_entries
  tree.stabilize ⟨tree.process_event fuel, fuel⟩ none

/-- The core of a new machine. -/
def new (world : E.World) : Core E where
  view :=
    { state := fun place => ⟨tree.initial place, E.default⟩
      exit_skip := fun _ => false
      world := world }

end Tables

end SmlRs.Macros
