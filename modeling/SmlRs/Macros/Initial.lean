/-
Module: SmlRs.Macros.Initial
Purpose: Which states are active in a new machine, and which of them are entered when
  it is initialized.
Trusted boundary: none
Main exports: InitiallyActive, initial_configuration, enter_configuration, Enters,
  Unentered, mem_initial_configuration, outer_first, enters_iff
-/
import SmlRs.Lib.Couple
import SmlRs.Macros.Regions
import SmlRs.Macros.Routing
import SmlRs.Macros.Steps

namespace SmlRs.Macros

open Lib

variable {E : Environment}

namespace Tables

variable (tree : Tables E)

/-! ### The initial configuration -/

/-- The slots whose initial states are active in a new machine. -/
inductive InitiallyActive : Slot → Prop where
  | root {place : Slot} (among : place ∈ tree.slots 0) : InitiallyActive place
  | nested {outer place : Slot} {node : Nat} (active : InitiallyActive outer)
      (composite : tree.child outer.node (tree.initial outer) = some node)
      (among : place ∈ tree.slots node) : InitiallyActive place

/-- The slots nested in the initial state of a slot, each in front of those that are
nested in it. -/
def initial_below : Nat → Slot → List Slot
  | 0, _ => []
  | depth + 1, place =>
      match tree.child place.node (tree.initial place) with
      | none => []
      | some node =>
          (tree.slots node).flatMap fun inner => inner :: initial_below depth inner

/-- The regions of a table start in different states. -/
def StartsApart : Prop :=
  ∀ node < tree.size, ((tree.node node).regions.map (·.initial)).Nodup

def initial_configuration : List Slot :=
  (tree.slots 0).flatMap fun place => place :: tree.initial_below tree.size place

/-- The entry actions of the initial state of a slot. -/
def initial_hooks (place : Slot) : List E.Ident :=
  (tree.node place.node).hooks .entry (tree.initial place)

/-- Enters the initial state of a slot. -/
def enter_initial (place : Slot) : Effect E Unit := do
  note (.entered place)
  action_calls (tree.initial_hooks place)
    (if (tree.node place.node).has_data (tree.initial place) then [E.default]
    else [])

/-- Enters the initial configuration, outermost states first. -/
def enter_configuration : Effect E Unit :=
  tree.initial_configuration.forM tree.enter_initial

/-! ### What is seen of it -/

/-- The slots that are entered, first to last. -/
def entered_slots (record : List (Happening E)) : List Slot :=
  record.reverse.filterMap fun happening =>
    match happening with
    | .entered place => some place
    | _ => none

/-- The entries that have actions to run. -/
def acting_entries (record : List (Happening E)) : List Slot :=
  (entered_slots record).filter fun place => !(tree.initial_hooks place).isEmpty

/-- What is seen of a run: how it ends, the world that it leaves, and whose entry
actions it has begun, in order. -/
def seen (run : EStateM.Result (Fault E) (Core E) Unit) :
    Option (Fault E) × E.World × List Slot :=
  match run with
  | .ok _ core => (none, core.view.world, tree.acting_entries core.trace)
  | .error fault core =>
      (some fault, core.view.world, tree.acting_entries core.trace)

/-- The entries of a new machine run the entry actions of its initial configuration,
before any row is run: initialization only adds to their record. -/
structure Enters (world : E.World) : Prop where
  all : tree.seen (tree.initial_entries (tree.new world)) =
    tree.seen (tree.enter_configuration (tree.new world))
  rowless : ∀ cause place row index view, .fired cause place row index view ∉
    (final tree.initial_entries (tree.new world)).trace
  first : ∀ fuel, (final tree.initial_entries (tree.new world)).trace <:+
    (final (tree.initialize_unlocked fuel) (tree.new world)).trace

/-- The child of a single-child machine is active in it and has entry actions for its
initial state, and those of the root do not fail. -/
def Unentered (world : E.World) : Prop :=
  tree.single_child = true ∧
    tree.child 0 (tree.initial ⟨0, 0⟩) = some 1 ∧
    tree.initial_hooks ⟨1, 0⟩ ≠ [] ∧
    ∃ core, tree.enter_initial ⟨0, 0⟩ (tree.new world) = .ok () core

end Tables

/-! ### The configuration is exact -/

section Configuration

variable (tree : Tree E)

theorem active_of_below {depth : Nat} {place inner : Slot}
    (active : tree.InitiallyActive place)
    (below : inner ∈ tree.initial_below depth place) :
    tree.InitiallyActive inner := by
  induction depth generalizing place with
  | zero => cases below
  | succ depth ih =>
    unfold Tables.initial_below at below
    split at below
    · cases below
    · rename_i node composite
      obtain ⟨next, among, inside⟩ := List.mem_flatMap.mp below
      have reached := active.nested composite among
      rcases List.mem_cons.mp inside with rfl | further
      · exact reached
      · exact ih reached further

/-- What is listed below a slot of a table is part of what is listed for the table. -/
theorem sublist_below {depth node : Nat} {place : Slot}
    (among : place ∈ tree.slots node) :
    (place :: tree.initial_below depth place).Sublist ((tree.slots node).flatMap
      fun inner => inner :: tree.initial_below depth inner) := by
  apply List.sublist_flatten_of_mem
  exact List.mem_map.mpr ⟨place, among, rfl⟩

/-- The list goes on behind each of its slots with those nested in it, as far down
as there are tables. -/
theorem below_nested {depth : Nat} {place outer inner : Slot} {node : Nat}
    (deep : tree.size ≤ place.node + depth)
    (listed : outer ∈ place :: tree.initial_below depth place)
    (composite : tree.child outer.node (tree.initial outer) = some node)
    (among : inner ∈ tree.slots node) :
    [outer, inner].Sublist (place :: tree.initial_below depth place) := by
  induction depth generalizing place with
  | zero =>
    have same : outer = place := by simpa [Tables.initial_below] using listed
    have inside := (tree.child_spec composite).1.2
    have below := tree.owner_lt_child composite
    rw [same] at below
    omega
  | succ depth ih =>
    unfold Tables.initial_below at listed ⊢
    rcases List.mem_cons.mp listed with rfl | further
    · rw [composite]
      apply List.Sublist.cons_cons
      apply List.singleton_sublist.mpr
      exact List.mem_flatMap.mpr ⟨inner, among, List.mem_cons_self ..⟩
    · split at further
      · cases further
      · rename_i middle owned
        obtain ⟨next, among_next, inside⟩ := List.mem_flatMap.mp further
        have lower := tree.owner_lt_child owned
        have here := (Tables.mem_slots.mp among_next).1
        apply List.Sublist.cons
        exact (ih (by omega) inside).trans (sublist_below tree among_next)

theorem mem_initial_configuration {place : Slot} :
    place ∈ tree.initial_configuration ↔ tree.InitiallyActive place := by
  unfold Tables.initial_configuration
  constructor
  · intro listed
    obtain ⟨top, among, inside⟩ := List.mem_flatMap.mp listed
    have active : tree.InitiallyActive top := .root among
    rcases List.mem_cons.mp inside with rfl | below
    · exact active
    · exact active_of_below tree active below
  · intro active
    induction active with
    | root among => exact List.mem_flatMap.mpr ⟨_, among, List.mem_cons_self ..⟩
    | nested _ composite among ih =>
      obtain ⟨top, among_top, inside⟩ := List.mem_flatMap.mp ih
      have found := below_nested tree (by omega) inside composite among
      exact List.mem_flatMap.mpr ⟨top, among_top, found.subset (by simp)⟩

/-- A slot is listed in front of those nested in its initial state. -/
theorem outer_first {outer inner : Slot} {node : Nat}
    (active : tree.InitiallyActive outer)
    (composite : tree.child outer.node (tree.initial outer) = some node)
    (among : inner ∈ tree.slots node) :
    [outer, inner].Sublist tree.initial_configuration := by
  have listed := (mem_initial_configuration tree).mpr active
  obtain ⟨top, among_top, inside⟩ := List.mem_flatMap.mp listed
  exact (below_nested tree (by omega) inside composite among).trans
    (sublist_below tree among_top)

/-! ### No slot is listed twice -/

omit tree in
/-- The regions that are discovered start in different states. -/
theorem discovered_starts {rows : List (StarredRow E)} {regions : List (Region E)}
    (found : discover_regions rows = .ok regions) :
    (regions.map (·.initial)).Nodup := by
  obtain ⟨_, each, apart⟩ := discovered_regions found
  apply List.pairwise_map.mpr
  apply apart.imp_of_mem
  intro first second among among' disjoint same
  have inside (region : Region E) (among : region ∈ regions) :
      region.initial ∈ region.states := (each region among _).mpr rfl
  exact disjoint first.initial (inside first among) (same ▸ inside second among')

theorem placed_of_active {place : Slot} (active : tree.InitiallyActive place) :
    tree.Placed place := by
  cases active with
  | root among =>
    obtain ⟨here, region⟩ := Tables.mem_slots.mp among
    exact ⟨here.symm ▸ tree.size_pos, here.symm ▸ region⟩
  | nested _ composite among =>
    obtain ⟨here, region⟩ := Tables.mem_slots.mp among
    exact ⟨here.symm ▸ (tree.child_spec composite).1.2, here.symm ▸ region⟩

theorem lt_of_below {depth : Nat} {place inner : Slot}
    (below : inner ∈ tree.initial_below depth place) : place.node < inner.node := by
  induction depth generalizing place with
  | zero => cases below
  | succ depth ih =>
    unfold Tables.initial_below at below
    split at below
    · cases below
    · rename_i node composite
      have lower := tree.owner_lt_child composite
      obtain ⟨next, among, inside⟩ := List.mem_flatMap.mp below
      have here := (Tables.mem_slots.mp among).1
      rcases List.mem_cons.mp inside with rfl | further
      · exact here.symm ▸ lower
      · have deeper := ih further
        omega

/-- A slot listed below another one is nested in one that is listed too. -/
theorem outer_of_below {depth : Nat} {place inner : Slot}
    (below : inner ∈ tree.initial_below depth place) :
    ∃ outer ∈ place :: tree.initial_below depth place,
      tree.child outer.node (tree.initial outer) = some inner.node := by
  induction depth generalizing place with
  | zero => cases below
  | succ depth ih =>
    unfold Tables.initial_below at below ⊢
    split at below
    · cases below
    · rename_i node composite
      obtain ⟨next, among, inside⟩ := List.mem_flatMap.mp below
      rcases List.mem_cons.mp inside with rfl | further
      · have here := (Tables.mem_slots.mp among).1
        exact ⟨place, List.mem_cons_self .., here.symm ▸ composite⟩
      · obtain ⟨outer, listed, owned⟩ := ih further
        have reached := (sublist_below tree among).subset listed
        exact ⟨outer, List.mem_cons_of_mem _ reached, owned⟩

section Apart

variable (apart : tree.StartsApart)

include apart

/-- The initial states of its slots tell the slots of a table apart. -/
theorem slot_of_initial {first second : Slot} (placed : tree.Placed first)
    (placed' : tree.Placed second) (one_table : first.node = second.node)
    (one_state : tree.initial first = tree.initial second) : first = second := by
  obtain ⟨node, region⟩ := first
  obtain ⟨_, region'⟩ := second
  cases one_table
  obtain ⟨inside, within⟩ := placed
  have within' := placed'.2
  have distinct := apart node inside
  dsimp only at within within'
  have same : region = region' := by
    apply (@List.Nodup.getElem_inj_iff _ _ distinct region (by simpa using within)
      region' (by simpa using within')).mp
    simpa [Tables.initial, within, within'] using one_state
  rw [same]

/-- What is listed below different slots of a table is different. -/
theorem one_top {depth : Nat} {first second : Slot}
    (active : tree.InitiallyActive first) (active' : tree.InitiallyActive second)
    (one_table : first.node = second.node) {inner : Slot}
    (below : inner ∈ first :: tree.initial_below depth first)
    (below' : inner ∈ second :: tree.initial_below depth second) :
    first = second := by
  induction node : inner.node using Nat.strong_induction_on generalizing inner with
  | _ node ih =>
    rcases List.mem_cons.mp below with rfl | further
    · rcases List.mem_cons.mp below' with same | further'
      · exact same
      · have deeper := lt_of_below tree further'
        omega
    rcases List.mem_cons.mp below' with rfl | further'
    · have deeper := lt_of_below tree further
      omega
    obtain ⟨outer, listed, owned⟩ := outer_of_below tree further
    obtain ⟨outer', listed', owned'⟩ := outer_of_below tree further'
    have reached {top place : Slot} (active : tree.InitiallyActive top)
        (listed : place ∈ top :: tree.initial_below depth top) :
        tree.Placed place := by
      apply placed_of_active tree
      rcases List.mem_cons.mp listed with rfl | below
      · exact active
      · exact active_of_below tree active below
    have same : outer = outer' := by
      obtain ⟨_, owner, variant⟩ := tree.child_spec owned
      obtain ⟨_, owner', variant'⟩ := tree.child_spec owned'
      apply slot_of_initial tree apart (reached active listed)
        (reached active' listed') (owner.symm.trans owner')
      exact variant.symm.trans variant'
    subst same
    exact ih outer.node (node ▸ tree.owner_lt_child owned) listed listed' rfl

theorem below_nodup {node depth : Nat}
    (active : ∀ place ∈ tree.slots node, tree.InitiallyActive place) :
    ((tree.slots node).flatMap fun inner =>
      inner :: tree.initial_below depth inner).Nodup := by
  induction depth generalizing node with
  | zero => simpa [Tables.initial_below] using tree.slots_nodup node
  | succ depth ih =>
    apply List.nodup_flatMap.mpr
    constructor
    · intro place among
      apply List.nodup_cons.mpr
      constructor
      · intro below
        exact Nat.lt_irrefl _ (lt_of_below tree below)
      · unfold Tables.initial_below
        split
        · exact List.nodup_nil
        · rename_i inner composite
          apply ih
          intro next among_next
          exact (active place among).nested composite among_next
    · apply (tree.slots_nodup node).imp_of_mem
      intro first second among among' differs inner below below'
      have here := (Tables.mem_slots.mp among).1
      have here' := (Tables.mem_slots.mp among').1
      exact differs (one_top tree apart (active first among)
        (active second among') (here.trans here'.symm) below below')

theorem initial_configuration_nodup : tree.initial_configuration.Nodup :=
  below_nodup tree apart fun _ among => .root among

end Apart

end Configuration

/-! ### The walk enters the configuration -/

/-- Two cores of a machine that is being initialized: no slot has moved, and entry
actions have begun for the same slots. -/
structure Tables.Alike (tree : Tables E) (core core' : Core E) : Prop where
  view : core.view = core'.view
  new : core.view = (tree.new core.view.world).view
  entries : tree.acting_entries core.trace = tree.acting_entries core'.trace

section Walk

variable {tree : Tables E}

theorem acting_entered (place : Slot) (record : List (Happening E)) :
    tree.acting_entries (.entered place :: record) =
      tree.acting_entries record ++
        if tree.initial_hooks place = [] then [] else [place] := by
  unfold Tables.acting_entries Tables.entered_slots
  rw [List.reverse_cons, List.filterMap_append, List.filter_append]
  congr 1
  by_cases idle : tree.initial_hooks place = []
  · simp [idle]
  · simp [idle]

theorem acting_reset (place : Slot) (record : List (Happening E)) :
    tree.acting_entries (.reset place :: record) = tree.acting_entries record := by
  unfold Tables.acting_entries Tables.entered_slots
  simp

theorem seen_of_coupled {run run' : EStateM.Result (Fault E) (Core E) Unit}
    (alike : Coupled tree.Alike run run') : tree.seen run = tree.seen run' := by
  cases alike with
  | ok related =>
    unfold Tables.seen
    dsimp only
    rw [related.view, related.entries]
  | error related =>
    unfold Tables.seen
    dsimp only
    rw [related.view, related.entries]

theorem entered_alike (place : Slot) :
    Couples tree.Alike (note (.entered place)) (note (.entered place)) := by
  apply Couples.modifies
  intro core core' alike
  refine ⟨alike.view, alike.new, ?_⟩
  rw [Core.note_trace, Core.note_trace, acting_entered, acting_entered,
    alike.entries]

theorem call_action_alike (action : E.Ident) (args : List E.Data) :
    Couples tree.Alike (call_action action args) (call_action action args) := by
  apply Couples.reads
  intro core core' alike
  rw [← alike.view]
  have called : tree.Alike
      (core.set { core.view with world := (E.action action args core.view.world).2 })
      (core'.set
        { core'.view with world := (E.action action args core.view.world).2 }) := by
    refine ⟨?_, ?_, alike.entries⟩
    · rw [Core.set_view, Core.set_view, alike.view]
    · rw [Core.set_view, alike.new]
      rfl
  cases ended : (E.action action args core.view.world).1 with
  | ok value =>
    simpa [ended] using Coupled.ok called
  | error error =>
    simpa [ended] using Coupled.error called

theorem action_calls_alike (actions : List E.Ident) (args : List E.Data) :
    Couples tree.Alike (action_calls actions args) (action_calls actions args) := by
  apply Couples.forM
  intro action _
  apply Couples.seq (call_action_alike action args)
  exact fun _ => Couples.returns _

theorem new_skip (tree : Tables E) (world : E.World) (place : Slot) :
    (tree.new world).view.skip place false = (tree.new world).view := by
  unfold View.skip
  congr 1
  exact Function.update_eq_self place (fun _ : Slot => false)

theorem new_replace (tree : Tables E) (world : E.World) (place : Slot) :
    (tree.new world).view.replace place ⟨tree.initial place, E.default⟩ =
      (tree.new world).view := by
  unfold View.replace
  congr 1
  exact Function.update_eq_self place fun place : Slot =>
    (⟨tree.initial place, E.default⟩ : StateValue E)

theorem skip_silent (place : Slot) : Silent tree.Alike (set_skip place false) := by
  apply Silent.modifies
  intro core core' alike
  have same : core.view.skip place false = core.view := by
    rw [alike.new]
    exact new_skip tree _ place
  refine ⟨same.trans alike.view, ?_, alike.entries⟩
  rw [Core.set_view, same]
  exact alike.new

theorem reset_silent (place : Slot) : Silent tree.Alike (tree.reset_slot place) := by
  apply Silent.seq
  · apply Silent.modifies
    intro core core' alike
    refine ⟨alike.view, alike.new, ?_⟩
    rw [Core.note_trace, acting_reset]
    exact alike.entries
  intro _
  apply Silent.modifies
  intro core core' alike
  have same : core.view.replace place ⟨tree.initial place, E.default⟩ =
      core.view := by
    rw [alike.new]
    exact new_replace tree _ place
  refine ⟨same.trans alike.view, ?_, alike.entries⟩
  rw [Core.set_view, same]
  exact alike.new

theorem Tables.Alike.state {core core' : Core E} (alike : tree.Alike core core')
    (place : Slot) : core.view.state place = ⟨tree.initial place, E.default⟩ := by
  rw [alike.new]
  rfl

/-- The hooks of the state that a slot holds are those of its initial state. -/
theorem enter_alike (place : Slot) {hooks : Effect E Unit}
    (current : ∀ core core', tree.Alike core core' →
      hooks core = action_calls (tree.initial_hooks place)
        (if (tree.node place.node).has_data (tree.initial place) then [E.default]
        else []) core) :
    Couples tree.Alike (note (.entered place) >>= fun _ => hooks)
      (tree.enter_initial place) := by
  apply Couples.seq (entered_alike place)
  intro _ core core' alike
  rw [current core core' alike]
  exact action_calls_alike _ _ core core' alike

theorem current_lifecycle_new {core core' : Core E} (place : Slot)
    (alike : tree.Alike core core') :
    tree.current_lifecycle .entry place core =
      action_calls (tree.initial_hooks place)
        (if (tree.node place.node).has_data (tree.initial place) then [E.default]
        else []) core := by
  unfold Tables.current_lifecycle
  rw [get_bind_run, alike.state place]
  rfl

theorem initial_entry_alike (place : Slot) :
    Couples tree.Alike (tree.initial_entry place) (tree.enter_initial place) := by
  intro core core' alike
  have current : tree.initial_entry place core = tree.enter_initial place core := by
    unfold Tables.initial_entry
    rw [get_bind_run, alike.state place]
    rfl
  rw [current]
  exact enter_alike place (fun _ _ _ => rfl) core core' alike

theorem enter_slot_alike {nested second : Effect E Unit} {place : Slot}
    {enter : Slot → Effect E Unit} (same : enter place = nested)
    (inner : Couples tree.Alike nested second) :
    Couples tree.Alike (tree.enter_slot enter place)
      (tree.enter_initial place >>= fun _ => second) := by
  have split : tree.enter_slot enter place =
      set_skip place false >>= fun _ =>
        (note (.entered place) >>= fun _ => tree.current_lifecycle .entry place) >>=
          fun _ => nested := by
    rw [bind_assoc, ← same]
    rfl
  rw [split]
  apply Couples.ahead (skip_silent place)
  intro _
  apply Couples.seq
  · exact enter_alike place fun core core' => current_lifecycle_new place
  · exact fun _ => inner

/-- The walk into a state enters what is initially active below it. -/
theorem tree_enter_children_alike (depth : Nat) (place : Slot) :
    Couples tree.Alike (tree.tree_enter_children depth place)
      ((tree.initial_below depth place).forM tree.enter_initial) := by
  induction depth generalizing place with
  | zero => exact Couples.returns _
  | succ depth ih =>
    intro core core' alike
    unfold Tables.tree_enter_children Tables.initial_below
    rw [get_bind_run, alike.state place]
    dsimp only
    cases composite : tree.child place.node (tree.initial place) with
    | none => exact Couples.returns _ core core' alike
    | some node =>
      have enters : Couples tree.Alike
          ((tree.slots node).forM
            (tree.enter_slot (tree.tree_enter_children depth)))
          (((tree.slots node).flatMap fun inner =>
            inner :: tree.initial_below depth inner).forM tree.enter_initial) := by
        rw [forM_flatMap]
        apply Couples.forM
        intro inner _
        exact enter_slot_alike rfl (ih inner)
      have each : Couples tree.Alike
          (tree.tree_enter_node (tree.tree_enter_children depth) node)
          (((tree.slots node).flatMap fun inner =>
            inner :: tree.initial_below depth inner).forM tree.enter_initial) := by
        unfold Tables.tree_enter_node
        dsimp only
        split
        · exact enters
        · apply Couples.ahead
          · exact Silent.forM fun inner _ => reset_silent inner
          · exact fun _ => enters
      exact each core core' alike

end Walk

/-! ### The generators -/

section Generators

variable {tree : Tree E}

theorem enter_alone (place : Slot) :
    ([place] : List Slot).forM tree.enter_initial = tree.enter_initial place :=
  bind_pure _

theorem scalar_configuration (scalar : (tree.node 0).orthogonal = false) :
    tree.initial_configuration = ⟨0, 0⟩ :: tree.initial_below tree.size ⟨0, 0⟩ := by
  unfold Tables.initial_configuration
  rw [tree.slots_of_scalar (by simp) scalar]
  exact List.append_nil _

/-- Every generator but that of single children walks the initial configuration. -/
theorem initial_entries_alike (walks : tree.single_child = false) :
    Couples tree.Alike tree.initial_entries tree.enter_configuration := by
  unfold Tables.initial_entries Tables.enter_configuration
  split
  · rename_i alone
    unfold Tables.initial_configuration
    rw [forM_flatMap]
    apply Couples.forM
    intro place _
    have flat : tree.initial_below tree.size place = [] := by
      rw [alone]
      unfold Tables.initial_below
      cases composite : tree.child place.node (tree.initial place) with
      | none => rfl
      | some node =>
        have inside := (tree.child_spec composite).1
        omega
    rw [flat, enter_alone]
    exact initial_entry_alike place
  · rw [walks, if_neg Bool.false_ne_true]
    split
    · unfold Tables.initial_configuration
      rw [forM_flatMap]
      apply Couples.forM
      intro place _
      exact enter_slot_alike rfl (tree_enter_children_alike tree.size place)
    · rename_i scalar
      rw [Bool.not_eq_true] at scalar
      rw [scalar_configuration scalar]
      apply Couples.seq (initial_entry_alike ⟨0, 0⟩)
      exact fun _ => tree_enter_children_alike tree.size ⟨0, 0⟩

theorem single_child_spec (single : tree.single_child = true) :
    tree.size = 2 ∧ (tree.node 0).orthogonal = false ∧
      (tree.node 1).orthogonal = false := by
  unfold Tables.single_child at single
  simpa [and_assoc] using single

/-- The generator of single children enters the root alone. -/
theorem single_child_entries (single : tree.single_child = true) :
    tree.initial_entries = tree.initial_entry ⟨0, 0⟩ := by
  have two := (single_child_spec single).1
  unfold Tables.initial_entries
  rw [if_neg (by omega), if_pos single]

theorem single_child_configuration (single : tree.single_child = true) :
    tree.initial_configuration = ⟨0, 0⟩ ::
      if tree.child 0 (tree.initial ⟨0, 0⟩) = some 1 then [⟨1, 0⟩] else [] := by
  obtain ⟨two, root, inner⟩ := single_child_spec single
  have none_below : tree.child 1 (tree.initial ⟨1, 0⟩) = none := by
    cases composite : tree.child 1 (tree.initial ⟨1, 0⟩) with
    | none => rfl
    | some node =>
      have inside := (tree.child_spec composite).1.2
      have lower := tree.owner_lt_child composite
      omega
  have slots : tree.slots 1 = [⟨1, 0⟩] :=
    tree.slots_of_scalar (by simp [Tables.mem_blocks, two]) inner
  rw [scalar_configuration root, two]
  unfold Tables.initial_below
  cases composite : tree.child 0 (tree.initial ⟨0, 0⟩) with
  | none => simp
  | some node =>
    have inside := (tree.child_spec composite).1
    have first : node = 1 := by omega
    subst first
    simp [slots, Tables.initial_below, none_below]

theorem enter_initial_trace (place : Slot) (core : Core E) :
    (final (tree.enter_initial place) core).trace =
      .entered place :: core.trace := by
  have acting : Acting fun core core' : Core E => core'.trace = core.trace :=
    { frame := { refl := fun _ => rfl, trans := fun first second => second.trans first }
      world := fun _ _ => rfl }
  exact (acting.action_calls (tree.initial_hooks place) _).final
    (core.note (.entered place))

theorem seen_entries (run : Effect E Unit) (core : Core E) :
    (tree.seen (run core)).2.2 = tree.acting_entries (final run core).trace := by
  unfold Tables.seen final
  cases run core <;> rfl

/-- The generator of single children runs the entry actions of the configuration
exactly where none are left out. -/
theorem single_child_seen (single : tree.single_child = true) (world : E.World) :
    tree.seen (tree.initial_entries (tree.new world)) =
        tree.seen (tree.enter_configuration (tree.new world)) ↔
      ¬ tree.Unentered world := by
  have fresh : tree.Alike (tree.new world) (tree.new world) := ⟨rfl, rfl, rfl⟩
  have root := seen_of_coupled (initial_entry_alike ⟨0, 0⟩ _ _ fresh)
  rw [single_child_entries single, root]
  unfold Tables.enter_configuration
  rw [single_child_configuration single]
  by_cases composite : tree.child 0 (tree.initial ⟨0, 0⟩) = some 1
  · rw [if_pos composite]
    have both : ([⟨0, 0⟩, ⟨1, 0⟩] : List Slot).forM tree.enter_initial =
        tree.enter_initial ⟨0, 0⟩ >>= fun _ => tree.enter_initial ⟨1, 0⟩ :=
      congrArg (fun inner => tree.enter_initial ⟨0, 0⟩ >>= fun _ => inner)
        (enter_alone ⟨1, 0⟩)
    rw [both, bind_run]
    cases entered : tree.enter_initial ⟨0, 0⟩ (tree.new world) with
    | error fault core =>
      constructor
      · rintro _ ⟨_, _, _, core', returned⟩
        rw [entered] at returned
        cases returned
      · exact fun _ => rfl
    | ok value core =>
      by_cases idle : tree.initial_hooks ⟨1, 0⟩ = []
      · constructor
        · rintro _ ⟨_, _, acts, _⟩
          exact acts idle
        · intro _
          have inner : tree.enter_initial ⟨1, 0⟩ core =
              .ok () (core.note (.entered ⟨1, 0⟩)) := by
            unfold Tables.enter_initial
            rw [idle]
            rfl
          show tree.seen (.ok value core) = tree.seen (tree.enter_initial ⟨1, 0⟩ core)
          rw [inner]
          unfold Tables.seen
          dsimp only
          rw [Core.note_trace, acting_entered, if_pos idle, List.append_nil,
            Core.note_view]
      · constructor
        · intro same
          have entries := congrArg (fun outcome => outcome.2.2) same
          have inner := @seen_entries E tree (tree.enter_initial ⟨1, 0⟩) core
          rw [enter_initial_trace, acting_entered, if_neg idle] at inner
          have longer : tree.acting_entries core.trace =
              tree.acting_entries core.trace ++ [⟨1, 0⟩] := entries.trans inner
          simp at longer
        · intro entered_all
          exact absurd ⟨single, composite, idle, core, entered⟩ entered_all
  · rw [if_neg composite, enter_alone]
    constructor
    · rintro _ ⟨_, active, _⟩
      exact composite active
    · exact fun _ => rfl

/-- The initial configuration lists every initially active slot once, and each one
in front of those that are nested in it; initialization enters it, before any row is
run, unless a single child is left out. -/
theorem enters_iff (apart : tree.StartsApart) (world : E.World) :
    (∀ place, place ∈ tree.initial_configuration ↔ tree.InitiallyActive place) ∧
      tree.initial_configuration.Nodup ∧
      (∀ outer inner node, tree.InitiallyActive outer →
        tree.child outer.node (tree.initial outer) = some node →
          inner ∈ tree.slots node →
            [outer, inner].Sublist tree.initial_configuration) ∧
      (tree.Enters world ↔ ¬ tree.Unentered world) := by
  refine ⟨fun _ => mem_initial_configuration tree,
    initial_configuration_nodup tree apart, fun _ _ _ => outer_first tree, ?_⟩
  have all : tree.seen (tree.initial_entries (tree.new world)) =
      tree.seen (tree.enter_configuration (tree.new world)) ↔
        ¬ tree.Unentered world := by
    cases single : tree.single_child with
    | true => exact single_child_seen single world
    | false =>
      have walked := seen_of_coupled (initial_entries_alike single (tree.new world)
        (tree.new world) ⟨rfl, rfl, rfl⟩)
      constructor
      · rintro _ ⟨other, _⟩
        rw [single] at other
        cases other
      · exact fun _ => walked
  constructor
  · exact fun enters => all.mp enters.all
  · intro entered
    refine ⟨all.mpr entered, ?_, ?_⟩
    · have moving : Moving fun core core' : Core E =>
          (∀ cause place row index view,
            .fired cause place row index view ∉ core.trace) →
          ∀ cause place row index view,
            .fired cause place row index view ∉ core'.trace :=
        { frame := { refl := fun _ => id, trans := fun one two clear => two (one clear) }
          view := fun _ _ => id
          moves := by
            intro core happening moves clear cause place row index view among
            rcases List.mem_cons.mp among with same | earlier
            · rw [← same] at moves
              exact moves
            · exact clear cause place row index view earlier }
      exact moving.initial_entries.final (tree.new world)
        (fun _ _ _ _ _ among => List.not_mem_nil among)
    · intro fuel
      have longer : Steps False tree.toTables Longer := longer_steps tree.toTables
      exact Within.final_seq longer.frame (longer.frame.refl _)
        fun _ => (longer.keeps id).stabilize fuel none

end Generators

/-! ### A child with an entry action -/

/-- A root that starts in its composite state, and a child whose initial state has
an entry action. -/
def hooked : Tree sample where
  size := 2
  node
    | 0 => { scalar 0 [] [] with owner := 0, variant := Name.X, depth := 0 }
    | 1 =>
        { scalar 1 []
            [{ in_state := plain 1, actions := [Name.acts],
               event := { kind := .entry, ident := Name.X, wildcard := true },
               out_state := plain 1, internal_transition := true }] with
          owner := 0, variant := Name.state 0, depth := 1 }
    | _ => { scalar 0 [] [] with owner := 0, variant := Name.X, depth := 1 }
  size_pos := Nat.two_pos
  root_depth := by decide
  owner_lt := by decide
  depth_owner := by decide
  regions_pos := by decide
  variants := by decide
  in_composite := by decide
  out_composite := by decide

theorem hooked_apart : hooked.StartsApart := by
  intro node _
  rcases node with _ | _ | node
  · exact List.nodup_singleton _
  · exact List.nodup_singleton _
  · exact List.nodup_singleton _

theorem hooked_unentered : hooked.Unentered () :=
  ⟨rfl, rfl, List.cons_ne_nil _ _, _, rfl⟩

theorem hooked_not_entered : hooked.StartsApart ∧ ¬ hooked.Enters () :=
  ⟨hooked_apart, fun enters =>
    (@single_child_seen sample hooked rfl ()).mp enters.all hooked_unentered⟩

theorem enters_iff_hooked : hooked.Enters () ↔ ¬ hooked.Unentered () :=
  (enters_iff hooked_apart ()).2.2.2

end SmlRs.Macros
