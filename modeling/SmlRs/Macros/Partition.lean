/-
Module: SmlRs.Macros.Partition
Purpose: The regions of an orthogonal table partition its states, in the table and
  in every run.
Trusted boundary: none
Main exports: Generated, Table.InRegions, in_regions_steps, regions_partition
-/
import SmlRs.Macros.Regions
import SmlRs.Macros.Routing
import SmlRs.Macros.Steps

namespace SmlRs.Macros

open Lib

variable {E : Environment}

/-- An orthogonal table is generated from rows, and `_` is the name of none of its
states. -/
structure Generated (blank : E.Ident) (rows : List (StarredRow E))
    (table : Table E) : Prop where
  lowered : table.transitions = rows.map (·.toStateTransition)
  discovered : discover_regions rows = .ok table.regions
  orthogonal : table.orthogonal = true
  sources : ∀ row ∈ rows, row.wildcard = true ↔ row.in_state.ident = blank
  targets : ∀ row ∈ rows, row.internal_transition = false →
    row.out_state.ident ≠ blank
  starred : ∀ row ∈ rows, row.start = true → row.wildcard = false

/-- Where no row is from `_`, nothing may have its name. -/
theorem Generated.of_explicit {blank : E.Ident} {rows : List (StarredRow E)}
    {table : Table E} (lowered : table.transitions = rows.map (·.toStateTransition))
    (discovered : discover_regions rows = .ok table.regions)
    (orthogonal : table.orthogonal = true)
    (named : ∀ row ∈ rows, row.wildcard = false ∧ row.in_state.ident ≠ blank ∧
      row.out_state.ident ≠ blank) : Generated blank rows table where
  lowered := lowered
  discovered := discovered
  orthogonal := orthogonal
  sources row among := by
    obtain ⟨explicit, apart, _⟩ := named row among
    constructor
    · intro wild
      exact absurd (explicit.symm.trans wild) Bool.false_ne_true
    · intro same
      exact absurd same apart
  targets row among _ := (named row among).2.2
  starred row among _ := (named row among).1

/-- Each slot of a table holds a state of its region or `X`. -/
def Tables.InRegions (tree : Tables E) (node : Nat) (core : Core E) : Prop :=
  ∀ index region, (tree.node node).regions[index]? = some region →
    (core.view.state ⟨node, index⟩).ident = E.X ∨
      (core.view.state ⟨node, index⟩).ident ∈ region.states

section Regions

variable {blank : E.Ident} {rows : List (StarredRow E)} {table : Table E}
  (generated : Generated blank rows table)

include generated

/-- No region has `_` as a state. -/
theorem Generated.named {region : Region E} (among : region ∈ table.regions)
    {state : E.Ident} (inside : state ∈ region.states) : state ≠ blank := by
  obtain ⟨_, names, each⟩ := discover_spec.1 _ generated.discovered
  have starred : region.initial ∈ initials rows := by
    rw [← names]
    exact List.mem_map_of_mem among
  have leads := (each region among state).mp inside
  rcases Relation.ReflTransGen.cases_tail leads with same | ⟨before, _, step⟩
  · obtain ⟨row, listed, source⟩ := List.mem_map.mp starred
    obtain ⟨listed, start⟩ := List.mem_filter.mp listed
    intro named
    have wild := (generated.sources row listed).mpr (by rw [source, ← same, named])
    rw [generated.starred row listed start] at wild
    cases wild
  · obtain ⟨row, listed, joins | joins⟩ := mem_adjacency.mp step
    · obtain ⟨_, external, _, _, target⟩ := joins
      exact target ▸ generated.targets row listed external
    · obtain ⟨explicit, _, _, source, _⟩ := joins
      intro named
      have wild := (generated.sources row listed).mpr (source.trans named)
      rw [explicit] at wild
      cases wild

/-- A row from a state of a region leads to one of the region or to `X`. -/
theorem Generated.stays {region : Region E} (among : region ∈ table.regions)
    {row : StateTransition E} (declared : row ∈ table.transitions)
    (external : row.internal_transition = false)
    (source : row.in_state.ident ∈ region.states) :
    row.out_state.ident = E.X ∨ row.out_state.ident ∈ region.states := by
  obtain ⟨_, _, each⟩ := discover_spec.1 _ generated.discovered
  rw [generated.lowered] at declared
  obtain ⟨written, listed, rfl⟩ := List.mem_map.mp declared
  have explicit : written.wildcard = false := by
    cases wild : written.wildcard with
    | false => rfl
    | true =>
      exact absurd ((generated.sources written listed).mp wild)
        (generated.named among source)
  by_cases terminal : written.out_state.ident = E.X
  · exact .inl terminal
  · have leads := (each region among _).mp source
    have step : written.out_state.ident ∈
        (adjacency rows).next written.in_state.ident :=
      mem_adjacency.mpr
        ⟨written, listed, .inl ⟨explicit, external, terminal, rfl, rfl⟩⟩
    exact .inr ((each region among _).mpr (leads.tail step))

theorem Generated.starts {region : Region E} (among : region ∈ table.regions) :
    region.initial ∈ region.states := by
  obtain ⟨_, _, each⟩ := discover_spec.1 _ generated.discovered
  exact (each region among _).mpr .refl

end Regions

section Runs

variable {blank : E.Ident} {rows : List (StarredRow E)} {tree : Tree E} {node : Nat}

theorem in_regions_replace {core : Core E} {place : Slot} {value : StateValue E}
    (fits : ∀ region, place.node = node →
      (tree.node node).regions[place.region]? = some region →
        value.ident = E.X ∨ value.ident ∈ region.states)
    (held : tree.InRegions node core) :
    tree.InRegions node (core.set (core.view.replace place value)) := by
  intro index region at_index
  rw [Core.set_view, View.replace_state]
  by_cases here : (⟨node, index⟩ : Slot) = place
  · subst here
    rw [Function.update_self]
    exact fits region rfl at_index
  · rw [Function.update_of_ne here]
    exact held index region at_index

/-- A row of a region leads to a state of the region or to `X`. -/
theorem in_regions_arrived
    (generated : Generated blank rows (tree.node node).toTable) {cause : Cause}
    {place : Slot} {row : StateTransition E} {output : E.Data} {core : Core E}
    (declared : row ∈ (tree.node place.node).transitions)
    (listed : row ∈ tree.rows place row.in_state.ident)
    (external : row.internal_transition = false) (held : tree.InRegions node core) :
    tree.InRegions node (tree.arrived cause place row output core) := by
  have replaced : tree.InRegions node ((core.note (.replaced place
      (core.view.state place).ident)).set
        (core.view.replace place ⟨row.out_state.ident, output⟩)) := by
    apply in_regions_replace
    · intro region here at_region
      have among := List.mem_of_getElem? at_region
      subst here
      unfold Tables.rows at listed
      simp only [generated.orthogonal, at_region, Bool.not_true, Bool.false_or,
        Option.any_some] at listed
      split at listed
      · rename_i contains
        exact generated.stays among declared external
          (List.contains_iff_mem.mp contains)
      · cases listed
    · exact held
  unfold Tables.arrived
  dsimp only
  split
  · exact replaced
  · exact replaced

/-- A slot that is reset is in the initial state of its region. -/
theorem in_regions_reset
    (generated : Generated blank rows (tree.node node).toTable) {place : Slot}
    {core : Core E} (held : tree.InRegions node core) :
    tree.InRegions node ((core.note (.reset place)).set
      (core.view.replace place ⟨tree.initial place, E.default⟩)) := by
  apply in_regions_replace
  · intro region here at_region
    have initial : tree.initial place = region.initial := by
      unfold Tables.initial
      rw [here, at_region]
      rfl
    exact .inr (initial ▸ generated.starts (List.mem_of_getElem? at_region))
  · exact held

/-- The steps of a machine leave each slot in its region. -/
theorem in_regions_steps (generated : Generated blank rows (tree.node node).toTable) :
    Steps False tree.toTables fun core core' =>
      tree.InRegions node core → tree.InRegions node core' where
  frame :=
    { refl := fun _ => id
      trans := fun first second held => second (first held) }
  world _ _ := id
  deferred _ _ := id
  pending _ _ := id
  outer _ _ _ := id
  exits _ _ _ _ _ := id
  leaves _ _ _ _ _ _ _ := id
  enters _ _ := id
  resets _ _ := in_regions_reset generated
  arrives _ _ _ _ _ _ declared listed external _ _ :=
    in_regions_arrived generated declared (listed id) external
  unentered _ _ := id
  started _ _ _ := id
  fired _ _ _ _ _ _ := id
  turn _ _ _ _ := id
  handled _ _ _ := id
  recovering _ _ _ _ := id
  counted _ := id

/-- In a new machine each slot is in the initial state of its region. -/
theorem in_regions_new (generated : Generated blank rows (tree.node node).toTable)
    (world : E.World) : tree.InRegions node (tree.new world) := by
  intro index region at_region
  have initial : tree.initial ⟨node, index⟩ = region.initial := by
    unfold Tables.initial
    rw [at_region]
    rfl
  show tree.initial ⟨node, index⟩ = E.X ∨ tree.initial ⟨node, index⟩ ∈ region.states
  rw [initial]
  exact .inr (generated.starts (List.mem_of_getElem? at_region))

/-- In every run each slot of an orthogonal table holds a state of its region. -/
theorem in_regions (generated : Generated blank rows (tree.node node).toTable)
    {core : Core E} (reached : (Machine.tree tree).Reaches core) :
    tree.InRegions node core := by
  have steps : Steps (Machine.tree tree).matched (Machine.tree tree).tables
      (fun core core' : Core E =>
        tree.InRegions node core → tree.InRegions node core') :=
    in_regions_steps generated
  apply Machine.invariant steps (fun moved held => moved held) _ reached
  exact fun world => in_regions_new generated world

end Runs

/-- The regions of an orthogonal table partition it: a table is accepted if and
only if each component of its rows has exactly one starred row, its regions are then
these components, and in every run of a machine each slot of the table holds a state
of its region or `X`. -/
theorem regions_partition (rows : List (StarredRow E)) :
    ((∃ regions, discover_regions rows = .ok regions) ↔ Partitions rows) ∧
      (∀ regions, discover_regions rows = .ok regions →
        regions.map (·.initial) = initials rows ∧
          (∀ region ∈ regions, ∀ state, state ∈ region.states ↔
            state ∈ ((row_graph rows).connectedComponentMk region.initial).supp) ∧
          regions.Pairwise fun first second =>
            ∀ state ∈ first.states, state ∉ second.states) ∧
      ∀ (blank : E.Ident) (tree : Tree E) (node : Nat),
        Generated blank rows (tree.node node).toTable →
          ∀ core, (Machine.tree tree).Reaches core → tree.InRegions node core :=
  ⟨discover_regions_iff, fun _ => discovered_regions,
    fun _ _ _ generated _ => in_regions generated⟩

/-- Two starred rows, the second one into `X`. -/
def halves : List (StarredRow sample) :=
  [{ in_state := plain 0, event := on 0, out_state := plain 1, start := true },
   { in_state := plain 2, event := on 0, out_state := { ident := Name.X },
     start := true }]

/-- The first region claims two states, and the second one. -/
theorem halves_discovered :
    discover_regions halves =
      .ok [⟨Name.state 0, [Name.state 1, .state 0]⟩,
        ⟨Name.state 2, [Name.state 2]⟩] := by
  have first : (adjacency halves).claim 0 [Name.state 0] (fun _ => none) [] =
      (adjacency halves).claim 0 [] (Function.update (Function.update (fun _ => none)
        (Name.state 0) (some 0)) (Name.state 1) (some 0))
        [Name.state 1, .state 0] :=
    (claim_open rfl).trans ((claim_open rfl).trans (claim_own rfl))
  rw [Adjacency.claim] at first
  have second (claimed : Name → Option Nat) (free : claimed (Name.state 2) = none) :
      (adjacency halves).claim 1 [Name.state 2] claimed [] =
        (adjacency halves).claim 1 []
          (Function.update claimed (Name.state 2) (some 1)) [Name.state 2] :=
    claim_open free
  simp only [Adjacency.claim] at second
  have both : (adjacency halves).claim_regions 0 (initials halves) (fun _ => none) =
      .ok (_, [⟨Name.state 0, [Name.state 1, .state 0]⟩,
        ⟨Name.state 2, [Name.state 2]⟩]) :=
    claim_regions_cons first (claim_regions_cons (second _ rfl) rfl)
  exact (congrArg (· >>= _) both).trans rfl

def halves_table : Table sample where
  transitions := halves.map (·.toStateTransition)
  regions := [⟨Name.state 0, [Name.state 1, .state 0]⟩,
    ⟨Name.state 2, [Name.state 2]⟩]

theorem halves_named {row : StarredRow sample} (among : row ∈ halves) :
    row.wildcard = false ∧ row.in_state.ident ≠ Name.acts ∧
      row.out_state.ident ≠ Name.acts := by
  unfold halves at among
  rcases List.mem_cons.mp among with rfl | among
  · exact ⟨rfl, Name.noConfusion, Name.noConfusion⟩
  · rw [List.mem_singleton.mp among]
    exact ⟨rfl, Name.noConfusion, Name.noConfusion⟩

theorem halves_generated : @Generated sample Name.acts halves halves_table :=
  .of_explicit rfl halves_discovered rfl fun _ => halves_named

/-- The machine of the two rows. -/
def halved : Tree sample where
  size := 1
  node _ := { halves_table with owner := 0, variant := Name.X, depth := 0 }
  size_pos := Nat.one_pos
  root_depth := by decide
  owner_lt := by decide
  depth_owner := by decide
  regions_pos := by decide
  variants := by decide
  in_composite := by decide
  out_composite := by decide

/-- The event moves both regions. -/
def halved_run : Core sample :=
  final ((Machine.tree halved).process_event 5 ⟨Name.event 0, ()⟩)
    ((Machine.tree halved).new ())

theorem halved_run_reached : (Machine.tree halved).Reaches halved_run :=
  (@Machine.Reaches.new sample (.tree halved) ()).process_event 5 ⟨Name.event 0, ()⟩

theorem regions_partition_halves :
    discover_regions halves = .ok (halved.node 0).regions ∧
      (Machine.tree halved).Reaches halved_run ∧ halved.InRegions 0 halved_run :=
  ⟨halves_discovered, halved_run_reached, (regions_partition halves).2.2 Name.acts
    halved 0 halves_generated _ halved_run_reached⟩

end SmlRs.Macros
