/-
Module: SmlRs.Macros.Dispatch
Purpose: The order of the turns of one dispatch, and the record of whole runs.
Trusted boundary: none
Main exports: depth_lt_of_descendant, region_of_descendant,
  parent_dispatch_standing, Reaches.good
-/
import SmlRs.Macros.Turns

namespace SmlRs.Macros

open Lib

variable {E : Environment}

/-! ### The order of the tables -/

namespace Tree

variable (tree : Tree E) {node ancestor : Nat}

theorem pos_of_depth {depth : Nat} (deep : (tree.node node).depth = depth + 1) :
    0 < node := by
  rcases Nat.eq_zero_or_pos node with rfl | pos
  · have root := tree.root_depth
    omega
  · exact pos

/-- A table lies deeper than the tables it is nested in. -/
theorem depth_lt_of_climbs {depth : Nat} (inside : node < tree.size)
    (deep : (tree.node node).depth = depth)
    (climbs : tree.climbs ancestor depth node = true) :
    (tree.node ancestor).depth < depth := by
  induction depth generalizing node with
  | zero => cases climbs
  | succ depth ih =>
    have pos := tree.pos_of_depth deep
    have below := tree.owner_lt node inside pos
    have one_up := tree.depth_owner node inside pos
    unfold Tables.climbs at climbs
    simp only [Bool.or_eq_true, decide_eq_true_eq] at climbs
    rcases climbs with rfl | further
    · omega
    · have higher := ih (by omega) (by omega) further
      omega

theorem depth_lt_of_descendant (inside : node < tree.size)
    (descendant : tree.tree_is_descendant node ancestor = true) :
    (tree.node ancestor).depth < (tree.node node).depth :=
  tree.depth_lt_of_climbs inside rfl descendant

theorem climbs_of_region {depth region : Nat}
    (climbs : tree.climbs_region ancestor depth node = some region) :
    tree.climbs ancestor depth node = true := by
  induction depth generalizing node with
  | zero => cases climbs
  | succ depth ih =>
    unfold Tables.climbs_region at climbs
    unfold Tables.climbs
    split at climbs
    · rename_i owned
      simp [owned]
    · simp [ih climbs]

theorem descendant_of_below {place : Slot}
    (below : tree.Below node place) :
    tree.tree_is_descendant node place.node = true := by
  unfold Tables.Below at below
  split at below
  · exact tree.climbs_of_region below
  · exact below

theorem depth_lt_of_below {place : Slot} (inside : node < tree.size)
    (below : tree.Below node place) :
    (tree.node place.node).depth < (tree.node node).depth :=
  tree.depth_lt_of_descendant inside (tree.descendant_of_below below)

/-- A table lies in the region that the tables around it lie in. -/
theorem region_of_climbs {middle region depth : Nat}
    (inside : node < tree.size) (deep : (tree.node node).depth = depth)
    (between : middle < tree.size)
    (climbs : tree.climbs middle depth node = true)
    (lies : tree.tree_descendant_region middle ancestor = some region) :
    tree.climbs_region ancestor depth node = some region := by
  have above := tree.depth_lt_of_descendant between (tree.climbs_of_region lies)
  induction depth generalizing node with
  | zero => cases climbs
  | succ depth ih =>
    have pos := tree.pos_of_depth deep
    have below := tree.owner_lt node inside pos
    have one_up := tree.depth_owner node inside pos
    have deeper := tree.depth_lt_of_climbs inside deep climbs
    unfold Tables.climbs_region
    rw [if_neg (by rintro rfl; omega)]
    unfold Tables.climbs at climbs
    simp only [Bool.or_eq_true, decide_eq_true_eq] at climbs
    rcases climbs with owned | further
    · have level : (tree.node middle).depth = depth := by rw [← owned]; omega
      unfold Tables.tree_descendant_region at lies
      rw [owned, ← level]
      exact lies
    · exact ih (by omega) (by omega) further

theorem region_of_descendant {middle region : Nat} (inside : node < tree.size)
    (between : middle < tree.size)
    (descendant : tree.tree_is_descendant node middle = true)
    (lies : tree.tree_descendant_region middle ancestor = some region) :
    tree.tree_descendant_region node ancestor = some region :=
  tree.region_of_climbs inside rfl between descendant lies

/-- The child blocks come by falling depth. -/
theorem blocks_pairwise :
    tree.blocks.Pairwise fun first second =>
      (tree.node second).depth ≤ (tree.node first).depth := by
  have total : Std.Total fun first second : Nat =>
      (tree.node second).depth ≤ (tree.node first).depth :=
    ⟨fun first second => Nat.le_total _ _⟩
  have trans : IsTrans Nat fun first second =>
      (tree.node second).depth ≤ (tree.node first).depth :=
    ⟨fun first second third one two => Nat.le_trans two one⟩
  exact List.pairwise_insertionSort _ _

theorem slots_nodup (node : Nat) : (tree.slots node).Nodup := by
  refine (List.nodup_range ..).map ?_
  intro first second same
  simpa using same

theorem blocks_nodup : tree.blocks.Nodup :=
  (List.perm_insertionSort _ _).nodup_iff.mpr (List.nodup_range' ..)

end Tree

/-! ### The child blocks -/

section Blocks

variable {tree : Tree E} {calls : Calls E}
  (nested : ∀ event, Within (Advances tree.toTables) (calls.process_event event))
  {serial : Nat} {base : Core E} {event : Event E}

/-- In a list of child blocks: what the turns in front of it have left, and what
the blocks gone through have. -/
def Walking (tree : Tree E) (serial : Nat) (base : Core E) (extra : Slot → Prop)
    (front : List Nat) (flags : Tables.Flags) : Core E → Prop :=
  tree.Standing serial base (fun other => extra other ∨ other.node ∈ front)
    fun other => extra other ∨
      (other.node ∈ front ∧ flags.handled = true ∧
        flags.of_node other.node = true)

/-- A block that may follow the turns in front of its list and the blocks before
it. -/
structure Follows (tree : Tree E) (extra : Slot → Prop) (front : List Nat)
    (node : Nat) : Prop where
  child : 0 < node ∧ node < tree.size
  fresh : node ∉ front
  deeper : ∀ earlier ∈ front, ¬ tree.tree_is_descendant node earlier = true
  inner : ∀ earlier ∈ front, earlier < tree.size
  apart : ∀ other, extra other →
    other.node ≠ node ∧ ¬ tree.Below node other ∧
      ¬ tree.tree_is_descendant other.node node = true

theorem Tables.Standing.conseq {done done' handled handled' : Slot → Prop}
    {core : Core E} (standing : tree.Standing serial base done handled core)
    (more : ∀ other, done other → done' other)
    (also : ∀ other, handled other → handled' other) :
    tree.Standing serial base done' handled' core where
  toUnderway := standing.toUnderway
  turns happening among place part :=
    more place (standing.turns happening among place part)
  handlers place among := also place (standing.handlers place among)

section Follows

variable {extra : Slot → Prop} {front : List Nat} {node : Nat}
  (follows : Follows tree extra front node)

include follows

theorem Follows.free {other : Slot} (done : extra other ∨ other.node ∈ front) :
    other.node ≠ node ∧ ¬ tree.Below node other := by
  rcases done with before | earlier
  · obtain ⟨differs, outside, _⟩ := follows.apart other before
    exact ⟨differs, outside⟩
  · constructor
    · rintro rfl
      exact follows.fresh earlier
    · intro below
      exact follows.deeper other.node earlier (tree.descendant_of_below below)

theorem Follows.not_self : ¬ tree.tree_is_descendant node node = true := by
  intro descendant
  have deeper := tree.depth_lt_of_descendant follows.child.2 descendant
  omega

/-- A table in front that has handled the event and lies in a region of the
block is seen by the region. -/
theorem Follows.seen {flags : Nat → Bool} {place other : Slot}
    (orthogonal : (tree.node node).orthogonal = true) (here : place.node = node)
    (earlier : other.node ∈ front) (flagged : flags other.node = true)
    (below : tree.Below other.node place) :
    tree.descendant_handled flags place = true := by
  have inside := follows.inner other.node earlier
  have pos : 0 < other.node := by
    have deeper := tree.depth_lt_of_below inside below
    rcases Nat.eq_zero_or_pos other.node with zero | pos
    · have root := tree.root_depth
      rw [zero] at deeper
      omega
    · exact pos
  unfold Tables.Below at below
  rw [here, if_pos orthogonal, ← here] at below
  unfold Tables.descendant_handled
  rw [List.any_eq_true]
  refine ⟨other.node, Tables.mem_references.mpr ⟨pos, inside⟩, ?_⟩
  simp [below, flagged]

end Follows

include nested

/-- The turn of a scalar block. -/
theorem scalar_turn_standing {extra : Slot → Prop} {front : List Nat}
    {node : Nat} (follows : Follows tree extra front node)
    (scalar : (tree.node node).orthogonal = false) (handled : Slot → Prop) :
    Triple
      (tree.Standing serial base (fun other => extra other ∨ other.node ∈ front)
        handled)
      (tree.scalar_turn calls serial event node)
      (fun value => tree.Standing serial base
        (fun other => extra other ∨ other.node ∈ front ++ [node])
        fun other => handled other ∨ (value = true ∧ other.node = node))
      fun _ => tree.Underway serial base := by
  refine Triple.reads fun core => ?_
  split
  · have free (other : Slot) (done : extra other ∨ other.node ∈ front) :
        other ≠ ⟨node, 0⟩ ∧ ¬ tree.Below node other := by
      obtain ⟨differs, outside⟩ := follows.free done
      refine ⟨?_, outside⟩
      rintro rfl
      exact differs rfl
    have watched (watchful : tree.Watchful ⟨node, 0⟩) (other : Slot)
        (_ : handled other) : ¬ tree.Below other.node ⟨node, 0⟩ := by
      rcases watchful with root | orthogonal
      · have pos := follows.child.1
        dsimp only at root
        omega
      · rw [scalar] at orthogonal
        cases orthogonal
    have turn := Tables.dispatch_code_standing serial base event nested free
      watched
    refine turn.conseq (fun core standing => standing.2) ?_ fun _ _ => id
    intro value core standing
    refine standing.conseq ?_ ?_
    · rintro other ((before | earlier) | rfl)
      · exact .inl before
      · exact .inr (by simp [earlier])
      · exact .inr (by simp)
    · rintro other (before | ⟨set, rfl⟩)
      · exact .inl before
      · exact .inr ⟨set, rfl⟩
  · refine Triple.returns fun core standing => ?_
    refine standing.2.conseq ?_ fun other held => .inl held
    rintro other (before | earlier)
    · exact .inl before
    · exact .inr (by simp [earlier])

omit nested in
/-- In the regions of an orthogonal block: those seen are done, and the flag is
set if one of them, or a table nested in one, has handled the event. -/
def Seeing (tree : Tree E) (serial : Nat) (base : Core E) (extra : Slot → Prop)
    (front : List Nat) (flags : Tables.Flags) (seen : List Slot) (value : Bool) :
    Core E → Prop :=
  tree.Standing serial base
    (fun other => (extra other ∨ other.node ∈ front) ∨ other ∈ seen)
    fun other => (extra other ∨
      (other.node ∈ front ∧ flags.handled = true ∧
        flags.of_node other.node = true)) ∨
      (value = true ∧ other ∈ seen)

theorem region_block_seeing {extra : Slot → Prop} {front : List Nat}
    {node : Nat} (follows : Follows tree extra front node)
    (orthogonal : (tree.node node).orthogonal = true) (flags : Tables.Flags)
    {seen back : List Slot} {place : Slot}
    (split : tree.slots node = seen ++ place :: back) (value : Bool) :
    Triple (Seeing tree serial base extra front flags seen value)
      (tree.region_block calls serial event flags.of_node value place)
      (Seeing tree serial base extra front flags (seen ++ [place]))
      fun _ => tree.Underway serial base := by
  have here {other : Slot} (among : other ∈ tree.slots node) :
      other.node = node := (Tables.mem_slots.mp among).1
  have place_node : place.node = node := here (by simp [split])
  have seen_node {other : Slot} (among : other ∈ seen) : other.node = node :=
    here (by simp [split, among])
  have fresh : place ∉ seen := by
    have distinct := tree.slots_nodup node
    rw [split] at distinct
    exact fun among => (List.nodup_append.mp distinct).2.2 place among place
      (by simp) rfl
  unfold Tables.region_block
  dsimp only
  by_cases inner : tree.descendant_handled flags.of_node place = true
  · rw [inner]
    refine Triple.returns fun core standing => ?_
    refine standing.conseq ?_ ?_
    · rintro other (done | among)
      · exact .inl done
      · exact .inr (by simp [among])
    · rintro other (held | ⟨_, among⟩)
      · exact .inl held
      · exact .inr ⟨by simp, by simp [among]⟩
  · have free (other : Slot)
        (done : (extra other ∨ other.node ∈ front) ∨ other ∈ seen) :
        other ≠ place ∧ ¬ tree.Below place.node other := by
      rw [place_node]
      rcases done with done | among
      · obtain ⟨differs, outside⟩ := follows.free done
        refine ⟨?_, outside⟩
        rintro rfl
        exact differs place_node
      · constructor
        · rintro rfl
          exact fresh among
        · intro below
          have self := tree.descendant_of_below below
          rw [seen_node among] at self
          exact follows.not_self self
    have watched (_ : tree.Watchful place) (other : Slot)
        (held : (extra other ∨
          (other.node ∈ front ∧ flags.handled = true ∧
            flags.of_node other.node = true)) ∨ (value = true ∧ other ∈ seen)) :
        ¬ tree.Below other.node place := by
      intro below
      have descendant := tree.descendant_of_below below
      rw [place_node] at descendant
      rcases held with (before | ⟨earlier, _, flagged⟩) | ⟨_, among⟩
      · exact (follows.apart other before).2.2 descendant
      · exact inner (follows.seen orthogonal place_node earlier flagged below)
      · rw [seen_node among] at descendant
        exact follows.not_self descendant
    have turn := Tables.dispatch_code_standing serial base event nested free
      watched
    rw [Bool.not_eq_true] at inner
    rw [inner]
    refine Triple.seq turn fun handled => Triple.returns fun core standing => ?_
    refine standing.conseq ?_ ?_
    · rintro other ((done | among) | rfl)
      · exact .inl done
      · exact .inr (by simp [among])
      · exact .inr (by simp)
    · rintro other ((held | ⟨set, among⟩) | ⟨set, rfl⟩)
      · exact .inl held
      · exact .inr ⟨by simp [set], by simp [among]⟩
      · exact .inr ⟨by simp [set], by simp⟩

/-- The turns of the regions of an orthogonal block. -/
theorem region_blocks_standing {extra : Slot → Prop} {front : List Nat}
    {node : Nat} (follows : Follows tree extra front node)
    (orthogonal : (tree.node node).orthogonal = true) (flags : Tables.Flags) :
    Triple (Walking tree serial base extra front flags)
      (tree.region_blocks calls serial event flags.of_node node)
      (fun value => tree.Standing serial base
        (fun other => extra other ∨ other.node ∈ front ++ [node])
        fun other => (extra other ∨
          (other.node ∈ front ∧ flags.handled = true ∧
            flags.of_node other.node = true)) ∨
          (value = true ∧ other.node = node))
      fun _ => tree.Underway serial base := by
  have each (seen : List Slot) (place : Slot) (back : List Slot) (value : Bool)
      (split : tree.slots node = seen ++ place :: back) :
      Triple (Seeing tree serial base extra front flags seen value)
        (tree.region_block calls serial event flags.of_node value place)
        (Seeing tree serial base extra front flags (seen ++ [place]))
        fun _ => tree.Underway serial base :=
    region_block_seeing nested follows orthogonal flags split value
  refine (Triple.foldlM each false).conseq ?_ ?_ fun _ _ => id
  · intro core walking
    exact walking.conseq (fun _ => .inl) fun _ => .inl
  · intro value core standing
    refine standing.conseq ?_ ?_
    · rintro other ((before | earlier) | seen)
      · exact .inl before
      · exact .inr (by simp [earlier])
      · exact .inr (by simp [(Tables.mem_slots.mp seen).1])
    · rintro other (before | ⟨set, seen⟩)
      · exact .inl before
      · exact .inr ⟨set, (Tables.mem_slots.mp seen).1⟩

variable (serial base event) in
theorem child_block_walking {extra : Slot → Prop} {front : List Nat}
    {node : Nat} (follows : Follows tree extra front node)
    (flags : Tables.Flags) :
    Triple (Walking tree serial base extra front flags)
      (tree.child_block calls serial event flags node)
      (Walking tree serial base extra (front ++ [node]))
      fun _ => tree.Underway serial base := by
  -- Either kind of block leaves its own flag, and the others as they were.
  have flagged (value : Bool) : ∀ core, tree.Standing serial base
        (fun other => extra other ∨ other.node ∈ front ++ [node])
        (fun other => (extra other ∨
          (other.node ∈ front ∧ flags.handled = true ∧
            flags.of_node other.node = true)) ∨
          (value = true ∧ other.node = node)) core →
      Walking tree serial base extra (front ++ [node])
        ⟨flags.handled || value, Function.update flags.of_node node value⟩
        core := by
    intro core standing
    refine standing.conseq (fun _ => id) fun other held => ?_
    rcases held with (before | ⟨earlier, handled, flagged⟩) | ⟨rfl, rfl⟩
    · exact .inl before
    · have other_node : other.node ≠ node := by
        rintro rfl
        exact follows.fresh earlier
      refine .inr ⟨by simp [earlier], by simp [handled], ?_⟩
      simp [other_node, flagged]
    · exact .inr ⟨by simp, by simp, by simp⟩
  unfold Tables.child_block
  split
  · rename_i orthogonal
    refine Triple.reads fun core => ?_
    split
    · refine Triple.seq ((region_blocks_standing nested follows orthogonal
        flags).strengthen fun core walking => walking.2) fun value => ?_
      exact Triple.returns (flagged value)
    · refine Triple.returns fun core walking => ?_
      have idle := flagged false core ?_
      · rwa [Bool.or_false] at idle
      · refine walking.2.conseq ?_ fun other held => .inl held
        rintro other (before | earlier)
        · exact .inl before
        · exact .inr (by simp [earlier])
  · rename_i scalar
    refine Triple.seq (scalar_turn_standing nested follows (by simpa using scalar)
      _) fun value => ?_
    exact Triple.returns (flagged value)

theorem dispatch_blocks_walking {extra : Slot → Prop} {nodes : List Nat}
    (follows : ∀ front node back, nodes = front ++ node :: back →
      Follows tree extra front node)
    (flags : Tables.Flags) :
    Triple (tree.Standing serial base extra extra)
      (tree.dispatch_blocks calls serial event nodes flags)
      (Walking tree serial base extra nodes)
      fun _ => tree.Underway serial base := by
  have each (front : List Nat) (node : Nat) (back : List Nat)
      (flags : Tables.Flags) (split : nodes = front ++ node :: back) :=
    child_block_walking nested serial base event (follows front node back split)
      flags
  refine (Triple.foldlM each flags).strengthen fun core standing => ?_
  exact standing.conseq (fun _ => .inl) fun _ => .inl

/-! ### The root -/

omit nested

/-- The turns up to a region of an orthogonal root: those of the regions seen
and of the tables nested in them. -/
def Around (tree : Tree E) (seen : List Slot) (other : Slot) : Prop :=
  ∃ place ∈ seen, other = place ∨ (other.node < tree.size ∧
    tree.tree_descendant_region other.node 0 = some place.region)

theorem not_descendant_root {node : Nat} :
    ¬ tree.tree_is_descendant 0 node = true := by
  intro descendant
  have deeper := tree.depth_lt_of_descendant tree.size_pos descendant
  have root := tree.root_depth
  omega

/-- The child blocks of a list that keeps the order of the blocks. -/
theorem follows_of_sublist {extra : Slot → Prop} {nodes : List Nat}
    (sublist : nodes.Sublist tree.blocks)
    (apart : ∀ node ∈ nodes, ∀ other, extra other →
      other.node ≠ node ∧ ¬ tree.Below node other ∧
        ¬ tree.tree_is_descendant other.node node = true)
    {front back : List Nat} {node : Nat} (split : nodes = front ++ node :: back) :
    Follows tree extra front node := by
  have sorted := tree.blocks_pairwise.sublist sublist
  have distinct := tree.blocks_nodup.sublist sublist
  have inside {other : Nat} (among : other ∈ nodes) :
      0 < other ∧ other < tree.size :=
    Tables.mem_blocks.mp (sublist.subset among)
  rw [split] at sorted distinct
  constructor
  · exact inside (by simp [split])
  · intro among
    exact (List.nodup_append.mp distinct).2.2 node among node (by simp) rfl
  · intro earlier among descendant
    have deeper := tree.depth_lt_of_descendant
      (inside (by simp [split])).2 descendant
    have ordered := (List.pairwise_append.mp sorted).2.2 earlier among node
      (by simp)
    omega
  · intro earlier among
    exact (inside (by simp [split, among])).2
  · exact apart node (by simp [split])

theorem mem_root_blocks {node : Nat} {place : Slot} :
    node ∈ tree.root_blocks place ↔ (0 < node ∧ node < tree.size) ∧
      tree.tree_descendant_region node 0 = some place.region := by
  unfold Tables.root_blocks
  simp [Tables.mem_blocks]

section Region

variable {seen back : List Slot} {place : Slot}
  (split : tree.slots 0 = seen ++ place :: back)

include split

theorem seen_node {other : Slot} (among : other ∈ seen) : other.node = 0 := by
  have inside : other ∈ tree.slots 0 := by simp [split, among]
  exact (Tables.mem_slots.mp inside).1

theorem place_node : place.node = 0 := by
  have inside : place ∈ tree.slots 0 := by simp [split]
  exact (Tables.mem_slots.mp inside).1

theorem seen_ne {other : Slot} (among : other ∈ seen) : other ≠ place := by
  have distinct := tree.slots_nodup 0
  rw [split] at distinct
  exact (List.nodup_append.mp distinct).2.2 other among place (by simp)

theorem seen_region {other : Slot} (among : other ∈ seen) :
    other.region ≠ place.region := by
  intro same
  refine seen_ne split among ?_
  cases other
  cases place
  have here := seen_node split among
  have there := place_node split
  simp_all

theorem follows_root (orthogonal : (tree.node 0).orthogonal = true)
    {front rest : List Nat} {node : Nat}
    (parts : tree.root_blocks place = front ++ node :: rest) :
    Follows tree (Around tree seen) front node := by
  refine follows_of_sublist List.filter_sublist ?_ parts
  rintro node among other ⟨before, earlier, same | ⟨inside, lies⟩⟩
  · subst same
    obtain ⟨⟨pos, _⟩, here⟩ := mem_root_blocks.mp among
    rw [seen_node split earlier]
    refine ⟨Nat.ne_of_lt pos, ?_, not_descendant_root⟩
    unfold Tables.Below
    rw [seen_node split earlier, if_pos orthogonal, here]
    simpa using (seen_region split earlier).symm
  · obtain ⟨⟨_, bounded⟩, here⟩ := mem_root_blocks.mp among
    have apart {region : Nat}
        (one : tree.tree_descendant_region other.node 0 = some region)
        (two : some place.region = some region) : False := by
      rw [lies, ← two] at one
      simp only [Option.some.injEq] at one
      exact seen_region split earlier one
    refine ⟨?_, ?_, ?_⟩
    · rintro rfl
      exact apart here rfl
    · intro below
      have same := tree.region_of_descendant bounded inside
        (tree.descendant_of_below below) lies
      exact apart lies (here.symm.trans same)
    · intro descendant
      exact apart (tree.region_of_descendant inside bounded descendant here) rfl

/-- A slot of the root may follow the blocks of its region. -/
theorem root_free {other : Slot}
    (done : Around tree seen other ∨ other.node ∈ tree.root_blocks place) :
    other ≠ place ∧ ¬ tree.Below place.node other := by
  rw [place_node split]
  refine ⟨?_, fun below => not_descendant_root (tree.descendant_of_below below)⟩
  rintro rfl
  rcases done with ⟨before, earlier, same | ⟨_, lies⟩⟩ | among
  · exact seen_ne split earlier same.symm
  · rw [place_node split] at lies
    exact not_descendant_root (tree.climbs_of_region lies)
  · have pos := (mem_root_blocks.mp among).1.1
    rw [place_node split] at pos
    exact Nat.lt_irrefl 0 pos

theorem root_watched (orthogonal : (tree.node 0).orthogonal = true)
    {other : Slot} (around : Around tree seen other) :
    ¬ tree.Below other.node place := by
  unfold Tables.Below
  rw [place_node split, if_pos orthogonal]
  intro below
  obtain ⟨before, earlier, rfl | ⟨_, lies⟩⟩ := around
  · rw [seen_node split earlier] at below
    exact not_descendant_root (tree.climbs_of_region below)
  · rw [lies] at below
    simp only [Option.some.injEq] at below
    exact seen_region split earlier below

omit split in
theorem around_append {other : Slot}
    (within : (Around tree seen other ∨ other.node ∈ tree.root_blocks place) ∨
      other = place) : Around tree (seen ++ [place]) other := by
  rcases within with (⟨before, earlier, inner⟩ | among) | rfl
  · exact ⟨before, by simp [earlier], inner⟩
  · obtain ⟨⟨_, inside⟩, lies⟩ := mem_root_blocks.mp among
    exact ⟨place, by simp, .inr ⟨inside, lies⟩⟩
  · exact ⟨other, by simp, .inl rfl⟩

include nested

variable (serial base event) in
theorem root_region_standing (orthogonal : (tree.node 0).orthogonal = true)
    (value : Bool) :
    Triple (tree.Standing serial base (Around tree seen) (Around tree seen))
      (tree.root_region calls serial event value place)
      (fun _ => tree.Standing serial base (Around tree (seen ++ [place]))
        (Around tree (seen ++ [place])))
      fun _ => tree.Underway serial base := by
  have follows (front : List Nat) (node : Nat) (rest : List Nat)
      (parts : tree.root_blocks place = front ++ node :: rest) :
      Follows tree (Around tree seen) front node :=
    follows_root split orthogonal parts
  refine Triple.seq (dispatch_blocks_walking nested follows _) fun flags => ?_
  cases handled : flags.handled with
  | true =>
    refine Triple.returns fun core walking => ?_
    refine walking.conseq (fun other done => around_append (.inl done)) ?_
    rintro other (around | ⟨among, _⟩)
    · exact around_append (.inl (.inl around))
    · exact around_append (.inl (.inr among))
  | false =>
    have watched (_ : tree.Watchful place) (other : Slot)
        (around : Around tree seen other) : ¬ tree.Below other.node place :=
      root_watched split orthogonal around
    have turn := Tables.dispatch_code_standing serial base event nested
      (fun other done => root_free split done) watched
    have started : ∀ core,
        Walking tree serial base (Around tree seen) (tree.root_blocks place)
          flags core →
        tree.Standing serial base
          (fun other => Around tree seen other ∨
            other.node ∈ tree.root_blocks place) (Around tree seen) core := by
      intro core walking
      refine walking.conseq (fun _ => id) ?_
      rintro other (around | ⟨_, set, _⟩)
      · exact around
      · rw [handled] at set
        cases set
    refine Triple.seq (turn.strengthen started) fun value => ?_
    refine Triple.returns fun core standing => ?_
    refine standing.conseq (fun other done => around_append done) ?_
    rintro other (around | ⟨_, rfl⟩)
    · exact around_append (.inl (.inl around))
    · exact around_append (.inr rfl)

end Region

include nested

variable (serial base event) in
theorem parent_dispatch_underway :
    Triple (tree.Standing serial base (fun _ => False) fun _ => False)
      (tree.parent_dispatch calls serial event)
      (fun _ => tree.Underway serial base)
      fun _ => tree.Underway serial base := by
  unfold Tables.parent_dispatch
  split
  · rename_i orthogonal
    have each (seen : List Slot) (place : Slot) (back : List Slot) (value : Bool)
        (split : tree.slots 0 = seen ++ place :: back) :=
      root_region_standing nested serial base event split orthogonal value
    refine (Triple.foldlM each false).conseq ?_ ?_ fun _ _ => id
    · intro core standing
      exact standing.conseq (fun _ => False.elim) fun _ => False.elim
    · intro _ core standing
      exact standing.toUnderway
  · rename_i scalar
    have follows (front : List Nat) (node : Nat) (back : List Nat)
        (split : tree.blocks = front ++ node :: back) :
        Follows tree (fun _ => False) front node :=
      follows_of_sublist (List.Sublist.refl _) (fun _ _ _ => False.elim) split
    refine Triple.seq (dispatch_blocks_walking nested follows _) fun flags => ?_
    split
    · exact Triple.returns fun core walking => walking.toUnderway
    · rename_i unhandled
      have free (other : Slot) (done : False ∨ other.node ∈ tree.blocks) :
          other ≠ ⟨0, 0⟩ ∧ ¬ tree.Below 0 other := by
        rcases done with none | among
        · exact none.elim
        · refine ⟨?_, fun below =>
            not_descendant_root (tree.descendant_of_below below)⟩
          rintro rfl
          exact absurd (Tables.mem_blocks.mp among).1 (Nat.lt_irrefl 0)
      have watched (_ : tree.Watchful ⟨0, 0⟩) (other : Slot)
          (held : False ∨ (other.node ∈ tree.blocks ∧ flags.handled = true ∧
            flags.of_node other.node = true)) :
          ¬ tree.Below other.node ⟨0, 0⟩ := by
        rcases held with none | ⟨_, handled, _⟩
        · exact none.elim
        · exact absurd handled unhandled
      refine (Tables.dispatch_code_standing serial base event nested free
        watched).conseq (fun _ => id) ?_ fun _ _ => id
      exact fun _ core standing => standing.toUnderway

end Blocks

/-! ### Whole runs -/

theorem advances_keeps (tree : Tree E) :
    Keeps tree.toTables (Advances tree.toTables) where
  toQuiet := advances_blind.quiet
  completion calls nested place _ := advances_bodies nested (by simp) place
  recover calls nested error site := by
    apply recover_walk_within advances_frame
    · intro core good
      refine ⟨⟨?_, ⟨trivial, good.sound⟩, good.answered.cons id⟩,
        Nat.le_succ _, [.offered core.serial], rfl, by simp [Happening.part]⟩
      intro happening among serial place part
      cases among with
      | head => cases part
      | tail _ among =>
        exact Nat.lt_succ_of_lt
          (good.numbered happening among serial place part)
    · intro serial place error _
      apply exception_code_within advances_blind.quiet
      · exact advances_bodies nested (by simp) place
      · exact fun core => advances_blind.notes core _ rfl
  dispatch calls nested event core good := by
    have start : tree.Standing core.serial core (fun _ => False)
        (fun _ => False) { core with serial := core.serial + 1 } := by
      refine ⟨⟨⟨?_, good.sound, good.answered⟩, Nat.lt_succ_self _,
        Nat.le_succ _, [], rfl, by simp⟩, ?_, ?_⟩
      · intro happening among number place part
        exact Nat.lt_succ_of_lt (good.numbered happening among number place part)
      · intro happening among place part
        exact Nat.lt_irrefl _ (good.numbered happening among _ place part)
      · intro place among
        exact Nat.lt_irrefl _ (good.numbered _ among _ place rfl)
    have dispatch := parent_dispatch_underway nested core.serial core event
    unfold final
    cases run : tree.parent_dispatch calls core.serial event
        { core with serial := core.serial + 1 } with
    | ok handled core' =>
      have ends := dispatch.ok start run
      exact ⟨ends.good, ends.since⟩
    | error fault core' =>
      have ends := dispatch.error start run
      exact ⟨ends.good, ends.since⟩

/-- In every run the record is sound. -/
theorem Reaches.good {tree : Tree E} {core : Core E}
    (reached : Reaches tree.toTables core) : tree.Good core := by
  refine Reaches.invariant (advances_keeps tree) (fun moved good => (moved good).1)
    ?_ ?_ reached
  · intro world
    exact ⟨by simp [Tables.new], trivial, trivial⟩
  · intro world
    have fresh : tree.Good (tree.new world) :=
      ⟨by simp [Tables.new], trivial, trivial⟩
    exact (advances_blind.moving.initial_entries.final _ fresh).1

end SmlRs.Macros
