/-
Module: SmlRs.Macros.SettleSites
Purpose: The numbers that a composite tree gives to the places where it settles, and
  the paths that are made of them.
Trusted boundary: sums of region counts do not overflow
Main exports: TreeSettleSites, Tables.number, Tables.Numbered, Tables.Together,
  settle_sites_iff
-/
import SmlRs.Lib.Layout
import SmlRs.Macros.Dispatch
import SmlRs.Macros.Partition

namespace SmlRs.Macros

open Lib

variable {E : Environment}

/-! ### The numbering -/

/-- The sites of each table behind the root, and of the root. -/
structure TreeSettleSites where
  nodes : Nat → Option Range
  root : Range

namespace Tables

variable (tree : Tables E)

/-- A region of an orthogonal table has a site, and a scalar table has one. -/
def range_count (node : Nat) : Nat :=
  if (tree.node node).orthogonal then (tree.node node).regions.length else 1

/-- `TreeSettleSites::number`. The regions of a table are the discovered ones. -/
def number : TreeSettleSites :=
  let (next, ranges) :=
    tree.references.foldl (place tree.range_count) (0, fun _ => none)
  { nodes := ranges, root := ⟨next, next + tree.range_count 0⟩ }

end Tables

namespace TreeSettleSites

variable (sites : TreeSettleSites) (tree : Tables E)

def count : Nat :=
  sites.root.finish

/-- The sites of a list of tables. -/
def nested (nodes : List Nat) : List Nat :=
  (nodes.filterMap sites.nodes).flatMap Range.values

/-- `subtree`. -/
def subtree (node : Nat) : List Nat :=
  sites.nested (tree.references.filter fun candidate =>
    candidate = node || tree.tree_is_descendant candidate node)

/-- `region_paths`, for the range of the owner. -/
def region_paths (own : Range) (owner : Nat) : List (List Nat) :=
  own.values.mapIdx fun region site =>
    site :: sites.nested (tree.references.filter fun candidate =>
      tree.tree_descendant_region candidate owner = some region)

/-- The range of a table. -/
def range (node : Nat) : Option Range :=
  if node = 0 then some sites.root else sites.nodes node

/-- The sites of a table. -/
def of (node : Nat) : List Nat :=
  values_of sites.range node

/-- The paths of the regions of a table. -/
def paths (owner : Nat) : List (List Nat) :=
  ((sites.range owner).map fun own => sites.region_paths tree own owner).getD []

end TreeSettleSites

/-! ### What the numbers are for -/

namespace Tables

variable (tree : Tables E)

/-- A table is a child of another one. -/
def OwnedBy (node owner : Nat) : Prop :=
  0 < node ∧ node < tree.size ∧ (tree.node node).owner = owner

/-- A table is nested in another one. -/
def Descends (node ancestor : Nat) : Prop :=
  Relation.TransGen tree.OwnedBy node ancestor

/-- A table is another one or nested in it. -/
def Within (node ancestor : Nat) : Prop :=
  node = ancestor ∨ tree.Descends node ancestor

/-- The sites are shared out among the tables, and the paths are made of whole
tables. -/
structure Numbered (sites : TreeSettleSites) : Prop where
  /-- A site for each region of an orthogonal table, and one for a scalar table. -/
  lengths : ∀ node < tree.size,
    (sites.of node).length =
      if (tree.node node).orthogonal then (tree.node node).regions.length else 1
  disjoint : ∀ first < tree.size, ∀ second < tree.size, first ≠ second →
    List.Disjoint (sites.of first) (sites.of second)
  covers : ∀ site, site < sites.count ↔ ∃ node < tree.size, site ∈ sites.of node
  /-- The subtree of a table behind the root. -/
  subtrees : ∀ node < tree.size, 0 < node → ∀ site,
    site ∈ sites.subtree tree node ↔
      ∃ other < tree.size, tree.Within other node ∧ site ∈ sites.of other
  /-- Each region of an orthogonal table has a path that begins with its own site. -/
  own_first : ∀ owner < tree.size, (tree.node owner).orthogonal = true →
    (sites.paths tree owner).map List.head? = (sites.of owner).map some
  apart : ∀ owner < tree.size, (tree.node owner).orthogonal = true →
    (sites.paths tree owner).Pairwise List.Disjoint

/-- The paths of the regions of an orthogonal table are together its own sites and
those of all tables that are nested in it. -/
def Together (sites : TreeSettleSites) : Prop :=
  ∀ owner < tree.size, (tree.node owner).orthogonal = true → ∀ site,
    (∃ path ∈ sites.paths tree owner, site ∈ path) ↔
      ∃ other < tree.size, tree.Within other owner ∧ site ∈ sites.of other

end Tables

/-! ### The ranges -/

namespace Tree

variable (tree : Tree E) {node owner : Nat}

theorem range_count_eq (inside : node < tree.size) :
    tree.range_count node = (tree.node node).regions.length := by
  have some := tree.regions_pos node inside
  unfold Tables.range_count Table.orthogonal
  by_cases several : 1 < (tree.node node).regions.length
  · simp [several]
  · simp only [several, decide_false, Bool.false_eq_true, if_false]
    omega

theorem range_counts_eq {nodes : List Nat}
    (inside : ∀ node ∈ nodes, node < tree.size) :
    (nodes.map tree.range_count).sum =
      (nodes.map fun node => (tree.node node).regions.length).sum := by
  apply congrArg
  apply List.map_congr_left
  intro node among
  exact tree.range_count_eq (inside node among)

theorem lt_of_references (among : node ∈ tree.references) : node < tree.size :=
  (Tables.mem_references.mp among).2

theorem references_nodup : tree.references.Nodup :=
  List.nodup_range'

/-- The tables between the root and a table are in front of it. -/
theorem references_split (pos : 0 < node) (inside : node < tree.size) :
    ∃ back, tree.references = List.range' 1 (node - 1) ++ node :: back ∧
      node ∉ back := by
  have total : tree.size - 1 = node - 1 + (1 + (tree.size - 1 - node)) := by omega
  have next : 1 + (node - 1) = node := by omega
  refine ⟨List.range' (node + 1) (tree.size - 1 - node), ?_, ?_⟩
  · unfold Tables.references
    conv_lhs => rw [total, ← List.range'_append_1, ← List.range'_append_1, next]
    rfl
  · intro among
    have behind := (List.mem_range'_1.mp among).1
    omega

theorem number_range (pos : 0 < node) (inside : node < tree.size) :
    tree.number.range node =
      some ⟨tree.site_start node,
        tree.site_start node + (tree.node node).regions.length⟩ := by
  obtain ⟨back, split, once⟩ := tree.references_split pos inside
  have earlier : ∀ other ∈ List.range' 1 (node - 1), other < tree.size := by
    intro other among
    have before := List.mem_range'_1.mp among
    omega
  have fronts := tree.range_counts_eq earlier
  unfold TreeSettleSites.range Tables.number Tables.site_start
  rw [if_neg (Nat.pos_iff_ne_zero.mp pos), if_neg (Nat.pos_iff_ne_zero.mp pos), split,
    ← fronts, ← tree.range_count_eq inside]
  dsimp only
  rw [place_range once, Nat.zero_add]

theorem number_root :
    tree.number.range 0 =
      some ⟨tree.site_start 0, tree.site_start 0 + (tree.node 0).regions.length⟩ := by
  have sums := tree.range_counts_eq fun _ => tree.lt_of_references
  unfold TreeSettleSites.range Tables.number Tables.site_start
  rw [if_pos rfl, if_pos rfl, ← sums, ← tree.range_count_eq tree.size_pos]
  dsimp only
  rw [place_next, Nat.zero_add]

theorem range_eq (inside : node < tree.size) :
    tree.number.range node =
      some ⟨tree.site_start node,
        tree.site_start node + (tree.node node).regions.length⟩ := by
  rcases Nat.eq_zero_or_pos node with rfl | pos
  · exact tree.number_root
  · exact tree.number_range pos inside

/-- The sites of a table are those of its slots. -/
theorem number_of (inside : node < tree.size) :
    tree.number.of node = (tree.slots node).map tree.site := by
  unfold TreeSettleSites.of values_of Tables.slots
  rw [tree.range_eq inside, List.map_map, Option.map_some, Option.getD_some]
  unfold Range.values
  dsimp only
  rw [Nat.add_sub_cancel_left, List.range'_eq_map_range]
  rfl

/-- The ranges of the tables are one behind the other, the root last. -/
theorem number_all :
    (tree.references ++ [0]).flatMap tree.number.of =
      List.range tree.number.count := by
  have behind : ∀ node ∈ tree.references, tree.number.of node =
      values_of (tree.references.foldl (place tree.range_count)
        (0, fun _ => none)).2 node := by
    intro node among
    unfold TreeSettleSites.of TreeSettleSites.range values_of
    dsimp only
    rw [if_neg (Nat.pos_iff_ne_zero.mp (Tables.mem_references.mp among).1)]
    rfl
  have root : tree.number.of 0 =
      List.range' (tree.references.map tree.range_count).sum (tree.range_count 0) := by
    unfold TreeSettleSites.of TreeSettleSites.range values_of Range.values
      Tables.number
    simp [place_next]
  rw [List.flatMap_append, List.flatMap_congr behind,
    place_values tree.references_nodup, List.flatMap_singleton, root]
  have total : tree.number.count =
      (tree.references.map tree.range_count).sum + tree.range_count 0 := by
    unfold TreeSettleSites.count Tables.number
    simp [place_next]
  rw [total, List.range_eq_range', ← List.range'_append_1, Nat.zero_add]

theorem mem_order : node ∈ tree.references ++ [0] ↔ node < tree.size := by
  have some := tree.size_pos
  simp only [List.mem_append, Tables.mem_references, List.mem_singleton]
  omega

theorem number_disjoint {first second : Nat} (inside : first < tree.size)
    (inside' : second < tree.size) (differ : first ≠ second) :
    List.Disjoint (tree.number.of first) (tree.number.of second) := by
  apply @disjoint_of_nodup _ _ (tree.references ++ [0])
  · rw [number_all]
    exact List.nodup_range
  · exact tree.mem_order.mpr inside
  · exact tree.mem_order.mpr inside'
  · exact differ

theorem number_covers (site : Nat) :
    site < tree.number.count ↔ ∃ node < tree.size, site ∈ tree.number.of node := by
  rw [← List.mem_range, ← tree.number_all, List.mem_flatMap]
  simp only [tree.mem_order]

/-- A site has one table. -/
theorem node_of_site {first second site : Nat} (inside : first < tree.size)
    (inside' : second < tree.size) (one : site ∈ tree.number.of first)
    (other : site ∈ tree.number.of second) : first = second := by
  by_contra differ
  exact tree.number_disjoint inside inside' differ one other

/-- The sites of a list of tables behind the root. -/
theorem nested_eq {nodes : List Nat} (behind : ∀ node ∈ nodes, 0 < node) :
    tree.number.nested nodes = nodes.flatMap tree.number.of := by
  induction nodes with
  | nil => rfl
  | cons node rest ih =>
    have pos := behind node List.mem_cons_self
    have others := ih fun other among => behind other (List.mem_cons_of_mem _ among)
    have own : tree.number.of node = values_of tree.number.nodes node := by
      unfold TreeSettleSites.of TreeSettleSites.range values_of
      dsimp only
      rw [if_neg (Nat.pos_iff_ne_zero.mp pos)]
    rw [List.flatMap_cons, ← others, own]
    unfold TreeSettleSites.nested values_of
    cases given : tree.number.nodes node with
    | none => simp [given]
    | some range => simp [given]

/-! ### The walks along the owners -/

variable {ancestor : Nat}

theorem depth_of_owned (owned : tree.OwnedBy node owner) :
    (tree.node node).depth = (tree.node owner).depth + 1 := by
  obtain ⟨pos, inside, rfl⟩ := owned
  exact tree.depth_owner node inside pos

theorem depth_of_descends (descends : tree.Descends node ancestor) :
    (tree.node ancestor).depth < (tree.node node).depth := by
  induction descends with
  | single owned =>
    have above := tree.depth_of_owned owned
    omega
  | tail _ owned ih =>
    have above := tree.depth_of_owned owned
    omega

theorem descends_iff (pos : 0 < node) (inside : node < tree.size) :
    tree.Descends node ancestor ↔
      (tree.node node).owner = ancestor ∨
        tree.Descends (tree.node node).owner ancestor := by
  have own : tree.OwnedBy node (tree.node node).owner := ⟨pos, inside, rfl⟩
  constructor
  · intro descends
    obtain ⟨next, ⟨_, _, rfl⟩, further⟩ := Relation.TransGen.head'_iff.mp descends
    rcases Relation.reflTransGen_iff_eq_or_transGen.mp further with same | further
    · exact .inl same.symm
    · exact .inr further
  · intro above
    rcases above with rfl | above
    · exact .single own
    · exact .head own above

/-- `tree_is_descendant` finds the tables that are nested in one. -/
theorem climbs_iff {depth : Nat} (inside : node < tree.size)
    (deep : (tree.node node).depth = depth) :
    tree.climbs ancestor depth node = true ↔ tree.Descends node ancestor := by
  induction depth generalizing node with
  | zero =>
    constructor
    · intro climbs
      cases climbs
    · intro descends
      have above := tree.depth_of_descends descends
      omega
  | succ depth ih =>
    have pos := tree.pos_of_depth deep
    have below := tree.owner_lt node inside pos
    have one_up := tree.depth_owner node inside pos
    rw [tree.descends_iff pos inside, ← ih (by omega) (by omega), Tables.climbs,
      Bool.or_eq_true, decide_eq_true_eq]

theorem is_descendant_iff (inside : node < tree.size) :
    tree.tree_is_descendant node ancestor = true ↔ tree.Descends node ancestor :=
  tree.climbs_iff inside rfl

/-- The region of a table that the state of a child lies in. -/
def child_region (child owner : Nat) : Option Nat :=
  (tree.node owner).regions.findIdx? fun region =>
    region.states.contains (tree.node child).variant

/-- `tree_descendant_region` finds the region of the child that a table lies in. -/
theorem climbs_region_iff {depth region : Nat} (inside : node < tree.size)
    (deep : (tree.node node).depth = depth) :
    tree.climbs_region owner depth node = some region ↔
      ∃ child, tree.Within node child ∧ tree.OwnedBy child owner ∧
        tree.child_region child owner = some region := by
  induction depth generalizing node with
  | zero =>
    constructor
    · intro climbs
      cases climbs
    · intro ⟨child, within, owned, _⟩
      have above := tree.depth_of_owned owned
      rcases within with rfl | descends
      · omega
      · have higher := tree.depth_of_descends descends
        omega
  | succ depth ih =>
    have pos := tree.pos_of_depth deep
    have below := tree.owner_lt node inside pos
    have one_up := tree.depth_owner node inside pos
    rw [Tables.climbs_region]
    by_cases own : (tree.node node).owner = owner
    · rw [if_pos own]
      constructor
      · intro found
        exact ⟨node, .inl rfl, ⟨pos, inside, own⟩, found⟩
      · intro ⟨child, within, owned, found⟩
        -- The walk has come to the owner, so that no other child is above.
        rcases within with rfl | descends
        · exact found
        · have above := tree.depth_of_owned owned
          rw [tree.descends_iff pos inside, own] at descends
          rcases descends with rfl | descends
          · omega
          · have higher := tree.depth_of_descends descends
            omega
    · rw [if_neg own, ih (by omega) (by omega)]
      apply exists_congr
      intro child
      apply and_congr_left
      intro ⟨owned, _⟩
      unfold Tables.Within
      rw [tree.descends_iff pos inside]
      constructor
      · intro above
        exact .inr above
      · intro within
        rcases within with rfl | above
        · exact absurd owned.2.2 own
        · exact above

theorem descendant_region_iff {region : Nat} (inside : node < tree.size) :
    tree.tree_descendant_region node owner = some region ↔
      ∃ child, tree.Within node child ∧ tree.OwnedBy child owner ∧
        tree.child_region child owner = some region :=
  tree.climbs_region_iff inside rfl

theorem number_subtree (pos : 0 < node) (site : Nat) :
    site ∈ tree.number.subtree tree.toTables node ↔
      ∃ other < tree.size, tree.Within other node ∧ site ∈ tree.number.of other := by
  unfold TreeSettleSites.subtree
  rw [tree.nested_eq fun other among =>
    (Tables.mem_references.mp (List.mem_filter.mp among).1).1, List.mem_flatMap]
  apply exists_congr
  intro other
  rw [List.mem_filter, Tables.mem_references, Bool.or_eq_true, decide_eq_true_eq,
    ← and_assoc]
  apply and_congr_left
  intro _
  constructor
  · intro ⟨⟨_, inside⟩, within⟩
    refine ⟨inside, ?_⟩
    rcases within with same | descendant
    · exact .inl same
    · exact .inr ((tree.is_descendant_iff inside).mp descendant)
  · intro ⟨inside, within⟩
    rcases within with same | descends
    · exact ⟨⟨same ▸ pos, inside⟩, .inl same⟩
    · have above := tree.depth_of_descends descends
      have below : 0 < other := by
        apply @Tree.pos_of_depth _ tree other ((tree.node other).depth - 1)
        omega
      exact ⟨⟨below, inside⟩, .inr ((tree.is_descendant_iff inside).mpr descends)⟩

/-- The machine marks the numbered sites of a subtree. -/
theorem number_subtree_eq :
    tree.number.subtree tree.toTables node = tree.subtree node := by
  unfold TreeSettleSites.subtree Tables.subtree
  rw [tree.nested_eq, List.flatMap_congr]
  · intro other among
    exact tree.number_of (tree.lt_of_references (List.mem_filter.mp among).1)
  · intro other among
    exact (Tables.mem_references.mp (List.mem_filter.mp among).1).1

/-- The paths of an orthogonal table are the ones of its slots. -/
theorem number_paths (inside : owner < tree.size) :
    tree.number.paths tree.toTables owner =
      (tree.slots owner).map tree.region_path := by
  unfold TreeSettleSites.paths
  rw [tree.range_eq inside, Option.map_some, Option.getD_some]
  unfold TreeSettleSites.region_paths Range.values Tables.slots
  rw [Nat.add_sub_cancel_left, List.map_map]
  apply List.ext_getElem?
  intro region
  rw [List.getElem?_mapIdx, List.getElem?_map]
  by_cases there : region < (tree.node owner).regions.length
  · rw [List.getElem?_range' there, List.getElem?_range there]
    simp only [Option.map_some, Function.comp_apply, Option.some.injEq]
    unfold Tables.region_path
    rw [tree.nested_eq, List.flatMap_congr]
    · simp only [Nat.one_mul]
      rfl
    · intro node among
      exact tree.number_of (tree.lt_of_references (List.mem_filter.mp among).1)
    · intro node among
      exact (Tables.mem_references.mp (List.mem_filter.mp among).1).1
  · rw [List.getElem?_eq_none (by simpa using there),
      List.getElem?_eq_none (by simpa using there)]
    rfl

/-- A nested table lies in a child. -/
theorem descends_child (descends : tree.Descends node owner) :
    ∃ child, tree.Within node child ∧ tree.OwnedBy child owner := by
  induction descends using Relation.TransGen.head_induction_on with
  | single owned => exact ⟨_, .inl rfl, owned⟩
  | head owned _ ih =>
    obtain ⟨child, within, under⟩ := ih
    refine ⟨child, .inr ?_, under⟩
    rcases within with rfl | descends
    · exact .single owned
    · exact .head owned descends

/-! ### The paths -/

theorem mem_of {site : Nat} (inside : owner < tree.size) :
    site ∈ tree.number.of owner ↔
      ∃ region < (tree.node owner).regions.length,
        tree.site ⟨owner, region⟩ = site := by
  rw [tree.number_of inside]
  unfold Tables.slots
  simp only [List.mem_map, List.mem_range, exists_exists_and_eq_and]

theorem mem_region_path {region site : Nat} :
    site ∈ tree.region_path ⟨owner, region⟩ ↔
      site = tree.site ⟨owner, region⟩ ∨
        ∃ other < tree.size, tree.tree_descendant_region other owner = some region ∧
          site ∈ tree.number.of other := by
  unfold Tables.region_path
  rw [List.mem_cons, List.mem_flatMap]
  apply or_congr_right
  apply exists_congr
  intro other
  rw [List.mem_filter, Tables.mem_references, decide_eq_true_eq, and_assoc]
  constructor
  · intro ⟨⟨_, inside⟩, lies, among⟩
    rw [← tree.number_of inside] at among
    exact ⟨inside, lies, among⟩
  · intro ⟨inside, lies, among⟩
    obtain ⟨child, within, owned, _⟩ := (tree.descendant_region_iff inside).mp lies
    have below : 0 < other := by
      rcases within with rfl | descends
      · exact owned.1
      · have above := tree.depth_of_descends descends
        apply @Tree.pos_of_depth _ tree other ((tree.node other).depth - 1)
        omega
    rw [tree.number_of inside] at among
    exact ⟨⟨below, inside⟩, lies, among⟩

/-- A table in a region of an owner is nested in the owner. -/
theorem descends_of_region {region : Nat} (inside : node < tree.size)
    (lies : tree.tree_descendant_region node owner = some region) :
    tree.Descends node owner := by
  obtain ⟨child, within, owned, _⟩ := (tree.descendant_region_iff inside).mp lies
  rcases within with rfl | descends
  · exact .single owned
  · exact .tail descends owned

theorem ne_of_descends (descends : tree.Descends node owner) : node ≠ owner := by
  intro same
  have above := tree.depth_of_descends descends
  rw [same] at above
  exact absurd above (Nat.lt_irrefl _)

theorem region_of_site {region other : Nat}
    (same : tree.site ⟨owner, region⟩ = tree.site ⟨owner, other⟩) :
    region = other := by
  unfold Tables.site at same
  exact Nat.add_left_cancel same

theorem region_paths_disjoint {region other : Nat} (inside : owner < tree.size)
    (there : region < (tree.node owner).regions.length)
    (there' : other < (tree.node owner).regions.length) (differ : region ≠ other) :
    List.Disjoint (tree.region_path ⟨owner, region⟩)
      (tree.region_path ⟨owner, other⟩) := by
  intro site one two
  have own {index : Nat} (placed : index < (tree.node owner).regions.length) :
      tree.site ⟨owner, index⟩ ∈ tree.number.of owner :=
    (tree.mem_of inside).mpr ⟨index, placed, rfl⟩
  rw [tree.mem_region_path] at one two
  rcases one with rfl | ⟨node, within, lies, among⟩
  · rcases two with same | ⟨node, within, lies, among⟩
    · exact differ (tree.region_of_site same)
    · exact tree.ne_of_descends (tree.descends_of_region within lies)
        (tree.node_of_site within inside among (own there))
  · rcases two with rfl | ⟨node', within', lies', among'⟩
    · exact tree.ne_of_descends (tree.descends_of_region within lies)
        (tree.node_of_site within inside among (own there'))
    · cases tree.node_of_site within within' among among'
      rw [lies] at lies'
      exact differ (Option.some.inj lies')

theorem numbered : tree.Numbered tree.number where
  lengths node inside := by
    rw [tree.number_of inside, List.length_map]
    unfold Tables.slots
    rw [List.length_map, List.length_range]
    exact (tree.range_count_eq inside).symm
  disjoint _ inside _ inside' differ := tree.number_disjoint inside inside' differ
  covers := tree.number_covers
  subtrees _ _ pos := tree.number_subtree pos
  own_first owner inside _ := by
    rw [tree.number_paths inside, tree.number_of inside, List.map_map, List.map_map]
    rfl
  apart owner inside _ := by
    rw [tree.number_paths inside, List.pairwise_map]
    unfold Tables.slots
    rw [List.pairwise_map]
    apply List.Pairwise.imp_of_mem _ List.nodup_range
    intro region other there there' differ
    exact tree.region_paths_disjoint inside (List.mem_range.mp there)
      (List.mem_range.mp there') differ

theorem child_region_isSome {child : Nat} :
    (tree.child_region child owner).isSome ↔
      ∃ region ∈ (tree.node owner).regions,
        (tree.node child).variant ∈ region.states := by
  unfold child_region
  rw [List.findIdx?_isSome, List.any_eq_true]
  simp only [List.contains_iff_mem]

theorem child_region_lt {child region : Nat}
    (found : tree.child_region child owner = some region) :
    region < (tree.node owner).regions.length := by
  unfold child_region at found
  exact (List.findIdx?_eq_some_iff_getElem.mp found).1

/-- The paths of a table are together its own sites and those of all tables that are
nested in it exactly when each of its children lies in a region. -/
theorem together_iff (inside : owner < tree.size) :
    (∀ site, (∃ path ∈ tree.number.paths tree.toTables owner, site ∈ path) ↔
      ∃ other < tree.size, tree.Within other owner ∧ site ∈ tree.number.of other) ↔
      ∀ child, tree.OwnedBy child owner → (tree.child_region child owner).isSome := by
  have on_path (site : Nat) :
      (∃ path ∈ tree.number.paths tree.toTables owner, site ∈ path) ↔
        ∃ region < (tree.node owner).regions.length,
          site ∈ tree.region_path ⟨owner, region⟩ := by
    rw [tree.number_paths inside]
    unfold Tables.slots
    simp only [List.mem_map, List.mem_range, exists_exists_and_eq_and]
  constructor
  · intro together child owned
    have below := owned.2.1
    -- The first site of the child lies on one of the paths.
    have first : tree.site ⟨child, 0⟩ ∈ tree.number.of child :=
      (tree.mem_of below).mpr ⟨0, tree.regions_pos child below, rfl⟩
    obtain ⟨region, there, among⟩ := (on_path _).mp ((together _).mpr
      ⟨child, below, .inr (.single owned), first⟩)
    rcases tree.mem_region_path.mp among with same | ⟨other, within, lies, among⟩
    · have own := (tree.mem_of inside).mpr ⟨region, there, rfl⟩
      rw [← same] at own
      exact absurd (tree.node_of_site below inside first own)
        (tree.ne_of_descends (.single owned))
    · cases tree.node_of_site below within first among
      obtain ⟨top, nested, owned', found⟩ :=
        (tree.descendant_region_iff below).mp lies
      rcases nested with rfl | descends
      · exact Option.isSome_iff_exists.mpr ⟨region, found⟩
      · have above := tree.depth_of_descends descends
        have one := tree.depth_of_owned owned
        have two := tree.depth_of_owned owned'
        omega
  · intro placed site
    rw [on_path]
    constructor
    · intro ⟨region, there, among⟩
      rcases tree.mem_region_path.mp among with rfl | ⟨other, within, lies, among⟩
      · exact ⟨owner, inside, .inl rfl, (tree.mem_of inside).mpr ⟨region, there, rfl⟩⟩
      · exact ⟨other, within, .inr (tree.descends_of_region within lies), among⟩
    · intro ⟨other, within, lies, among⟩
      rcases lies with rfl | descends
      · obtain ⟨region, there, rfl⟩ := (tree.mem_of inside).mp among
        exact ⟨region, there, tree.mem_region_path.mpr (.inl rfl)⟩
      · obtain ⟨child, nested, owned⟩ := tree.descends_child descends
        obtain ⟨region, found⟩ := Option.isSome_iff_exists.mp (placed child owned)
        exact ⟨region, tree.child_region_lt found, tree.mem_region_path.mpr (.inr
          ⟨other, within, (tree.descendant_region_iff within).mpr
            ⟨child, nested, owned, found⟩, among⟩)⟩

end Tree

/-! ### Children in regions -/

section Placed

variable {rows : List (StarredRow E)} {regions : List (Region E)} {state : E.Ident}

theorem vertex_of_leads {initial : E.Ident} (starred : initial ∈ initials rows)
    (leads : Leads (adjacency rows).next initial state) : vertex rows state := by
  rw [vertex_iff]
  rcases Relation.ReflTransGen.cases_tail leads with same | ⟨before, _, step⟩
  · rw [same]
    exact .inr starred
  · left
    rw [adjacency_keys]
    obtain ⟨row, among, links⟩ := mem_adjacency.mp step
    rcases links with joins | joins
    · exact ⟨row, among, .inr ⟨before, joins⟩⟩
    · exact ⟨row, among, .inl ⟨joins.1, joins.2.2.2.1⟩⟩

/-- The regions hold the sources of rows, the targets of rows that are not from `_`
and not into `X`, and nothing else. -/
theorem placed_iff_vertex (found : discover_regions rows = .ok regions) :
    (∃ region ∈ regions, state ∈ region.states) ↔ vertex rows state := by
  obtain ⟨⟨_, covered⟩, names, holds⟩ := discover_spec.1 regions found
  have region_of {initial : E.Ident} (starred : initial ∈ initials rows) :
      ∃ region ∈ regions, region.initial = initial := by
    rw [← names] at starred
    exact List.mem_map.mp starred
  constructor
  · intro ⟨region, among, lies⟩
    have starred : region.initial ∈ initials rows := by
      rw [← names]
      exact List.mem_map_of_mem among
    exact vertex_of_leads starred ((holds region among state).mp lies)
  · intro known
    rcases vertex_iff.mp known with key | starred
    · obtain ⟨initial, starred, leads⟩ := covered state key
      obtain ⟨region, among, rfl⟩ := region_of starred
      exact ⟨region, among, (holds region among state).mpr leads⟩
    · obtain ⟨region, among, rfl⟩ := region_of starred
      exact ⟨region, among, (holds region among region.initial).mpr .refl⟩

end Placed

/-- The settle sites are shared out among the tables, and the paths of the regions of
an orthogonal table are together its own sites and those of its descendants, exactly
when each child of an orthogonal table is the source of one of its rows or the target
of one that is not from `_` and not into `X`. -/
theorem settle_sites_iff (tree : Tree E) (blank : E.Ident)
    (rows : Nat → List (StarredRow E))
    (generated : ∀ owner < tree.size, (tree.node owner).orthogonal = true →
      Generated blank (rows owner) (tree.node owner).toTable) :
    tree.Numbered tree.number ∧ tree.Together tree.number ↔
      ∀ owner < tree.size, (tree.node owner).orthogonal = true →
        ∀ child, tree.OwnedBy child owner →
          vertex (rows owner) (tree.node child).variant := by
  rw [and_iff_right tree.numbered]
  unfold Tables.Together
  apply forall_congr'
  intro owner
  apply forall_congr'
  intro inside
  apply forall_congr'
  intro orthogonal
  rw [tree.together_iff inside]
  apply forall_congr'
  intro child
  apply forall_congr'
  intro _
  rw [tree.child_region_isSome,
    placed_iff_vertex (generated owner inside orthogonal).discovered]

/-- The first region leads into a child. -/
def housing : List (StarredRow sample) :=
  [{ in_state := plain 0, event := on 0, out_state := nested 1, start := true },
   { in_state := plain 2, event := on 0, out_state := { ident := Name.X },
     start := true }]

theorem housing_discovered :
    discover_regions housing = .ok halves_table.regions :=
  Eq.trans rfl halves_discovered

theorem housing_named {row : StarredRow sample} (among : row ∈ housing) :
    row.wildcard = false ∧ row.in_state.ident ≠ Name.acts ∧
      row.out_state.ident ≠ Name.acts := by
  unfold housing at among
  rcases List.mem_cons.mp among with rfl | among
  · exact ⟨rfl, Name.noConfusion, Name.noConfusion⟩
  · rw [List.mem_singleton.mp among]
    exact ⟨rfl, Name.noConfusion, Name.noConfusion⟩

/-- A root of two regions with a child in the first one. -/
def housed : Tree sample where
  size := 2
  node
    | 0 =>
        { transitions := housing.map (·.toStateTransition)
          regions := halves_table.regions
          owner := 0, variant := Name.X, depth := 0 }
    | _ => { scalar 4 [] [] with owner := 0, variant := Name.state 1, depth := 1 }
  size_pos := Nat.two_pos
  root_depth := by decide
  owner_lt := by decide
  depth_owner := by decide
  regions_pos := by decide
  variants := by decide
  in_composite := by decide
  out_composite := by decide

theorem housed_generated (owner : Nat) (_ : owner < housed.size)
    (orthogonal : (housed.node owner).orthogonal = true) :
    @Generated sample Name.acts housing (housed.node owner).toTable := by
  cases owner with
  | zero => exact .of_explicit rfl housing_discovered rfl fun _ => housing_named
  | succ => cases orthogonal

/-- The child is the target of a row. -/
theorem housed_placed (owner : Nat) (_ : owner < housed.size)
    (_ : (housed.node owner).orthogonal = true) (child : Nat)
    (owned : housed.OwnedBy child owner) :
    @vertex sample housing (housed.node child).variant := by
  obtain ⟨pos, below, _⟩ := owned
  have one : child = 1 := Nat.le_antisymm (Nat.le_of_lt_succ below) pos
  rw [one]
  right
  left
  exact ⟨_, List.mem_cons_self, Name.state 0, rfl, rfl, Name.noConfusion, rfl, rfl⟩

theorem settle_sites_iff_housed :
    housed.Numbered housed.number ∧ housed.Together housed.number :=
  (settle_sites_iff housed Name.acts (fun _ => housing) housed_generated).mpr
    housed_placed

/-- Only a row from `_` leads into the child. -/
def astray : List (StarredRow sample) :=
  halves ++ [{ in_state := { ident := Name.acts }, event := on 1,
               out_state := nested 3, wildcard := true }]

theorem astray_discovered :
    discover_regions astray = .ok halves_table.regions :=
  Eq.trans rfl halves_discovered

/-- A root of two regions with a child in none of them. -/
def strayed : Tree sample where
  size := 2
  node
    | 0 =>
        { transitions := astray.map (·.toStateTransition)
          regions := halves_table.regions
          owner := 0, variant := Name.X, depth := 0 }
    | _ => { scalar 4 [] [] with owner := 0, variant := Name.state 3, depth := 1 }
  size_pos := Nat.two_pos
  root_depth := by decide
  owner_lt := by decide
  depth_owner := by decide
  regions_pos := by decide
  variants := by decide
  in_composite := by decide
  out_composite := by decide

/-- The site of the child lies on no path of the root. -/
theorem stray_child_on_no_path :
    discover_regions astray = .ok (strayed.node 0).regions ∧
      (strayed.node 0).transitions = astray.map (·.toStateTransition) ∧
      (strayed.node 0).orthogonal = true ∧
      strayed.tree_children 0 = [1] ∧ strayed.number.of 1 = [0] ∧
      strayed.number.paths strayed.toTables 0 = [[1], [2]] ∧
      ¬(strayed.Numbered strayed.number ∧ strayed.Together strayed.number) := by
  refine ⟨astray_discovered, rfl, rfl, rfl, rfl, rfl, ?_⟩
  intro ⟨_, together⟩
  have placed := (strayed.together_iff Nat.two_pos).mp (together 0 Nat.two_pos rfl) 1
    ⟨Nat.one_pos, Nat.one_lt_two, rfl⟩
  cases placed

end SmlRs.Macros
