/-
Module: SmlRs.Macros.Settling
Purpose: The settle sites of a tree, and what the recovery of completion faults
  does to their marks.
Trusted boundary: none
Main exports: site_count, site_injective, Moved, Vacates,
  completion_faults_settle
-/
import Mathlib.Data.Finset.Card
import SmlRs.Macros.Innermost
import SmlRs.Macros.Laps
import SmlRs.Macros.Steps

namespace SmlRs.Macros

open Lib

variable {E : Environment}

/-! ### The numbers of the sites -/

namespace Tables

variable (tree : Tables E)

/-- How many sites the tables up to an index have, the root left out. -/
def sites_to (node : Nat) : Nat :=
  ((List.range' 1 node).map fun node => (tree.node node).regions.length).sum

/-- `TreeSettleSites::count`. -/
def site_count : Nat :=
  tree.site_start 0 + (tree.node 0).regions.length

/-- The root has its sites behind those of its descendants. -/
def rank (node : Nat) : Nat :=
  if node = 0 then tree.size else node

variable {tree} in
theorem rank_bounds {node : Nat} (inside : node < tree.size) :
    0 < tree.rank node ∧ tree.rank node ≤ tree.size := by
  unfold rank
  split <;> omega

theorem site_start_eq (node : Nat) :
    tree.site_start node = tree.sites_to (tree.rank node - 1) := by
  unfold site_start sites_to rank references
  dsimp only
  split <;> rfl

theorem sites_to_succ (node : Nat) :
    tree.sites_to (node + 1) =
      tree.sites_to node + (tree.node (node + 1)).regions.length := by
  unfold sites_to
  rw [List.range'_concat]
  simp [Nat.add_comm]

theorem sites_to_mono {first second : Nat} (upward : first ≤ second) :
    tree.sites_to first ≤ tree.sites_to second := by
  induction second, upward using Nat.le_induction with
  | base => exact Nat.le_refl _
  | succ second _ ih =>
    rw [sites_to_succ]
    omega

end Tables

namespace Tree

variable (tree : Tree E) {place other : Slot}

theorem sites_apart (placed : tree.Placed place) (inside : other.node < tree.size)
    (upward : tree.rank place.node < tree.rank other.node) :
    tree.site place < tree.site_start other.node := by
  have region := placed.2
  have within := placed.1
  have bounded := (Tables.rank_bounds inside).2
  have positive : place.node ≠ 0 := by
    intro root
    have last : tree.rank place.node = tree.size := if_pos root
    omega
  have ranked : tree.rank place.node = place.node := by
    simp [Tables.rank, positive]
  have ends := tree.sites_to_succ (place.node - 1)
  rw [Nat.sub_add_cancel (by omega)] at ends
  have up := tree.sites_to_mono
    (show place.node ≤ tree.rank other.node - 1 by omega)
  unfold Tables.site
  rw [tree.site_start_eq place.node, tree.site_start_eq other.node, ranked]
  omega

/-- Different slots are different settle sites. -/
theorem site_injective (placed : tree.Placed place)
    (placed' : tree.Placed other)
    (same : tree.site place = tree.site other) : place = other := by
  have apart := tree.sites_apart placed placed'.1
  have apart' := tree.sites_apart placed' placed.1
  have start : tree.site_start place.node ≤ tree.site place :=
    Nat.le_add_right _ _
  have start' : tree.site_start other.node ≤ tree.site other :=
    Nat.le_add_right _ _
  have level : tree.rank place.node = tree.rank other.node := by omega
  have node : place.node = other.node := by
    have within := placed.1
    have within' := placed'.1
    unfold Tables.rank at level
    split at level <;> split at level <;> omega
  obtain ⟨node, region⟩ := place
  obtain ⟨node', region'⟩ := other
  dsimp only at node
  subst node
  unfold Tables.site at same
  simpa using same

theorem site_lt_count (placed : tree.Placed place) :
    tree.site place < tree.site_count := by
  have region := placed.2
  have within := placed.1
  unfold Tables.site_count
  by_cases root : place.node = 0
  · unfold Tables.site
    rw [root] at region ⊢
    omega
  · have apart := @sites_apart _ tree place ⟨0, 0⟩ placed tree.size_pos
      (by simp only [Tables.rank, if_neg root, if_pos]; omega)
    dsimp only at apart
    omega

end Tree

/-! ### The paths of the sites -/

/-- The path of a slot: itself and the slots of the tables nested in it. -/
def Tables.Encloses (tree : Tables E) (place inner : Slot) : Prop :=
  inner = place ∨ tree.Below inner.node place

namespace Tree

variable (tree : Tree E) {place inner : Slot} {node : Nat}

theorem descendant_of_root (positive : 0 < node) (inside : node < tree.size) :
    tree.tree_is_descendant node 0 = true := by
  unfold Tables.tree_is_descendant
  generalize deep : (tree.node node).depth = depth
  induction depth generalizing node with
  | zero =>
    have level := tree.depth_owner node inside positive
    omega
  | succ depth ih =>
    have level := tree.depth_owner node inside positive
    have above := tree.owner_lt node inside positive
    unfold Tables.climbs
    rcases Nat.eq_zero_or_pos (tree.node node).owner with root | further
    · simp [root]
    · have climbs := ih further (by omega) (by omega)
      simp [climbs]

theorem mem_slot_sites {nodes : List Nat} (placed : tree.Placed inner)
    (inside : ∀ node ∈ nodes, node < tree.size)
    (among : tree.site inner ∈ nodes.flatMap fun node =>
      (tree.slots node).map tree.site) : inner.node ∈ nodes := by
  obtain ⟨node, listed, here⟩ := List.mem_flatMap.mp among
  obtain ⟨other, slot, same⟩ := List.mem_map.mp here
  obtain ⟨rfl, region⟩ := Tables.mem_slots.mp slot
  have held : other = inner :=
    tree.site_injective ⟨inside _ listed, region⟩ placed same
  rw [← held]
  exact listed

theorem encloses_of_region_path (placed : tree.Placed inner)
    (inside : tree.Placed place)
    (orthogonal : (tree.node place.node).orthogonal = true)
    (among : (tree.region_path place).contains (tree.site inner) = true) :
    tree.Encloses place inner := by
  simp only [Tables.region_path, List.contains_iff_mem, List.mem_cons] at among
  rcases among with same | nested
  · exact .inl (tree.site_injective placed inside same)
  · have listed := tree.mem_slot_sites placed (fun node among =>
      (Tables.mem_references.mp (List.mem_filter.mp among).1).2) nested
    have lies := (List.mem_filter.mp listed).2
    right
    unfold Tables.Below
    rw [if_pos orthogonal]
    simpa using lies

theorem encloses_of_subtree (placed : tree.Placed inner) (positive : 0 < node)
    (inside : node < tree.size)
    (scalar : (tree.node node).orthogonal = false)
    (among : (tree.subtree node).contains (tree.site inner) = true) :
    tree.Encloses ⟨node, 0⟩ inner := by
  simp only [Tables.subtree, List.contains_iff_mem] at among
  have listed := tree.mem_slot_sites placed (fun node among =>
    (Tables.mem_references.mp (List.mem_filter.mp among).1).2) among
  have lies := (List.mem_filter.mp listed).2
  simp only [Bool.or_eq_true, decide_eq_true_eq] at lies
  rcases lies with rfl | below
  · left
    have only := @Tree.slots_of_scalar _ tree inner.node
      (by simp [Tables.mem_blocks, positive, inside]) scalar
    have slot : inner ∈ tree.slots inner.node :=
      Tables.mem_slots.mpr ⟨rfl, placed.2⟩
    rw [only] at slot
    simpa using slot
  · right
    unfold Tables.Below
    rw [if_neg (by simp [scalar])]
    exact below

theorem root_encloses (placed : tree.Placed inner)
    (scalar : (tree.node 0).orthogonal = false) :
    tree.Encloses ⟨0, 0⟩ inner := by
  rcases Nat.eq_zero_or_pos inner.node with root | positive
  · left
    have only := @Tree.slots_of_scalar _ tree 0 (by simp) scalar
    have slot : inner ∈ tree.slots 0 :=
      Tables.mem_slots.mpr ⟨root, root ▸ placed.2⟩
    rw [only] at slot
    simpa using slot
  · right
    unfold Tables.Below
    rw [if_neg (by simp [scalar])]
    exact tree.descendant_of_root positive placed.1

end Tree

/-! ### What a record tells -/

/-- The record of a run tells of a happening. -/
def Tells (happening : Happening E) (core core' : Core E) : Prop :=
  ∃ added, core'.trace = added ++ core.trace ∧ happening ∈ added

namespace Tells

variable {happening : Happening E} {core mid last : Core E}

theorem noted (core : Core E) (happening : Happening E) :
    Tells happening core (core.note happening) :=
  ⟨[happening], rfl, by simp⟩

theorem later (tells : Tells happening core mid) (longer : Longer mid last) :
    Tells happening core last := by
  obtain ⟨added, grown, among⟩ := tells
  obtain ⟨further, grown'⟩ := longer
  refine ⟨further ++ added, ?_, by simp [among]⟩
  rw [← grown', grown, List.append_assoc]

theorem earlier (longer : Longer core mid) (tells : Tells happening mid last) :
    Tells happening core last := by
  obtain ⟨added, grown⟩ := longer
  obtain ⟨further, grown', among⟩ := tells
  refine ⟨further ++ added, ?_, by simp [among]⟩
  rw [grown', ← grown, List.append_assoc]

theorem mem_news (tells : Tells happening core last) :
    happening ∈ news core last := by
  obtain ⟨added, grown, among⟩ := tells
  rw [news_of_append grown]
  exact among

end Tells

/-! ### Exception rows that move -/

section Rows

variable {tree : Tree E} {calls : Calls E}
  (nested : ∀ event, Within Longer (calls.process_event event))
  {serial : Nat} {place : Slot} {error : E.Data} {core last : Core E}
  {row : StateTransition E}

/-- An external row that has run has replaced the state that its slot held. -/
theorem move_replaces {cause : Cause} {payload : Tables.Payload E}
    (external : row.internal_transition = false)
    (begun : Running cause place row core)
    (run : tree.move cause place row payload core = .ok () last) :
    Tells (.replaced place (core.view.state place).ident) core last := by
  have steps : Steps False tree.toTables Longer := longer_steps tree.toTables
  unfold Tables.move at run
  obtain ⟨_, left, leaves, run⟩ := bind_ok_iff.mp run
  obtain ⟨output, acted, acts, run⟩ := bind_ok_iff.mp run
  rw [tree.arrive_run] at run
  have underway := (underway_exiting tree.toTables).leave payload external begun
  have leaving := steps.toExiting.leave payload external begun
  unfold final at underway leaving
  rw [leaves] at underway leaving
  have still := ((acts_acting.run_actions row payload).ok acts).2
  have held : (acted.view.state place).ident = (core.view.state place).ident := by
    rw [still.1, underway.1]
  obtain ⟨added, grown⟩ := tree.arrived_trace cause place row output acted
  have arrived : Tells (.replaced place (core.view.state place).ident) acted
      (tree.arrived cause place row output acted) := by
    rw [← held]
    exact ⟨added ++ [.entered place,
      .replaced place (acted.view.state place).ident], by rw [grown]; simp,
      by simp⟩
  have entered := (steps.entries place row output).ok run
  have before : Longer core acted := by
    unfold Longer
    rw [still.2]
    exact leaving
  exact .earlier before (arrived.later entered)

include nested

/-- What a row that has run leaves in the record. -/
theorem row_body_tells {cause : Cause} {payload : Tables.Payload E} {index : Nat}
    (run : tree.row_body calls cause place row payload index core =
      .ok () last) :
    Tells (.fired cause place row index core.view) core last ∧
      (row.internal_transition = false →
        Tells (.replaced place (core.view.state place).ident) core last) := by
  have run : tree.run_row calls cause place row payload
      (core.note (.fired cause place row index core.view)) = .ok () last := run
  have longer := (longer_blind.run_row nested cause place row payload).ok run
  refine ⟨(Tells.noted core _).later longer, fun external => ?_⟩
  unfold Tables.run_row Tables.perform at run
  obtain ⟨_, changed, change, run⟩ := bind_ok_iff.mp run
  have behind := (follow_ups_within longer_blind.quiet nested cause row
    payload).ok run
  have moved : tree.move cause place row payload
      (core.note (.fired cause place row index core.view)) =
        .ok () changed := by
    unfold marking marked Tables.change at change
    simp only [external, Bool.false_eq_true, if_false] at change
    split at change
    · rename_i ran
      rw [ran]
      exact change
    · cases change
  have begun := running_of_fired cause place row index core
  have replaced := move_replaces external begun moved
  exact .earlier (longer_note core _) (replaced.later behind)

/-- One turn in a walk of the exception rows: where a row has moved, its slot held
the source of the row, and now another state. -/
theorem exception_code_tells {recovery : Option Bool}
    (run : tree.exception_code calls serial place error core =
      .ok recovery last) :
    Tells (.recovering serial error place core.view) core last ∧
      (recovery = some true → ∃ row ∈ (tree.node place.node).transitions,
        row.event.kind = .exception ∧ row.exception_row_moves = true ∧
          (core.view.state place).ident = row.in_state.ident ∧
          Tells (.fired (.exception serial) place row 0 core.view) core last ∧
          Tells (.replaced place row.in_state.ident) core last) := by
  have turn := Tells.noted core (.recovering serial error place core.view)
  cases picked : tree.exception_pick place error core.view with
  | none =>
    rcases @Tables.exception_code_of_pick_none _ tree.toTables calls serial _ _ _
      picked with idle | ⟨fault, failed⟩
    · rw [idle] at run
      cases run
      exact ⟨turn, fun moved => by cases moved⟩
    · rw [failed] at run
      cases run
  | some item =>
    obtain ⟨row, index⟩ := item
    obtain ⟨rfl, ran⟩ := @Tables.exception_code_of_pick_some _ tree.toTables calls
      serial _ _ _ _ _ picked
    rw [ran] at run
    obtain ⟨_, _, body, ends⟩ := bind_ok_iff.mp run
    cases ends
    obtain ⟨fired, replaced⟩ := row_body_tells nested body
    have longer : Longer (core.note (.recovering serial error place core.view))
        last := by
      obtain ⟨added, grown, _⟩ := fired
      exact ⟨added, grown.symm⟩
    refine ⟨turn.later longer, fun moved => ?_⟩
    have moves : row.exception_row_moves = true := by simpa using moved
    obtain ⟨front, back, arm, _, _⟩ := Tables.pick_some_split picked
    have among : (row, 0) ∈ (tree.exception_arm place
        (core.view.state place).ident).map fun row => (row, 0) := by
      rw [arm]
      simp
    obtain ⟨row', listed, same⟩ := List.mem_map.mp among
    cases same
    obtain ⟨declared, source⟩ := Tables.mem_rows (Tables.mem_exception_arm listed)
    have external : row.internal_transition = false := by
      unfold StateTransition.exception_row_moves at moves
      simp only [Bool.and_eq_true, Bool.not_eq_true'] at moves
      exact moves.1
    have replaced := replaced external
    have held : (core.view.state place).ident = row.in_state.ident := source.symm
    refine ⟨row, declared, Tables.kind_of_exception_arm listed, moves, held,
      .earlier (longer_note core _) fired, ?_⟩
    rw [← held]
    exact .earlier (longer_note core _) replaced

end Rows

/-! ### What a walk does -/

/-- An exception row of a walk has replaced the state in a slot by a different
one. The table of the slot was active when the walk came to it. -/
def Tables.Moved (tree : Tables E) (serial : Nat) (record : List (Happening E))
    (place : Slot) : Prop :=
  (∃ row ∈ (tree.node place.node).transitions, ∃ before : View E,
    row.event.kind = .exception ∧ row.out_state.ident ≠ row.in_state.ident ∧
      (before.state place).ident = row.in_state.ident ∧
      .fired (.exception serial) place row 0 before ∈ record ∧
      .replaced place row.in_state.ident ∈ record) ∧
  ∃ error view, .recovering serial error ⟨place.node, 0⟩ view ∈ record ∧
    tree.active view place.node = true

/-- A walk has ended the occupancy of a slot: it has moved the slot or one that
the table of the slot is nested in. -/
def Tables.Vacates (tree : Tables E) (serial : Nat)
    (record : List (Happening E)) (inner : Slot) : Prop :=
  ∃ place, tree.Moved serial record place ∧ tree.Encloses place inner

theorem mem_news_iff {happening : Happening E} {core core' : Core E}
    (longer : Longer core core') :
    happening ∈ news core core' ↔ Tells happening core core' := by
  obtain ⟨added, grown⟩ := longer
  refine ⟨fun among => ?_, Tells.mem_news⟩
  rw [news_of_append grown.symm] at among
  exact ⟨added, grown.symm, among⟩

theorem news_subset {base core core' : Core E} (before : Longer base core)
    (longer : Longer core core') : news base core ⊆ news base core' := by
  intro happening among
  exact (((mem_news_iff before).mp among).later longer).mem_news

theorem Tables.Moved.mono {tree : Tables E} {serial : Nat}
    {record record' : List (Happening E)} {place : Slot}
    (moved : tree.Moved serial record place) (wider : record ⊆ record') :
    tree.Moved serial record' place := by
  obtain ⟨⟨row, declared, before, kind, away, held, fired, replaced⟩, error,
    view, asked, active⟩ := moved
  exact ⟨⟨row, declared, before, kind, away, held, wider fired, wider replaced⟩,
    error, view, wider asked, active⟩

/-- The marks and the verdict of a walk rest on rows that have moved. -/
structure Told (tree : Tables E) (serial : Nat) (base : Core E) (faulted : Slot)
    (walk : Tables.Recovery) (core : Core E) : Prop where
  longer : Longer base core
  exits : ∀ site, walk.exited site = true →
    ∃ place, tree.Moved serial (news base core) place
  leaves : ∀ inner, tree.Placed inner → walk.exited (tree.site inner) = true →
    tree.Vacates serial (news base core) inner
  moves : walk.recovery = some true →
    tree.Vacates serial (news base core) faulted

/-- The walk has come to a table while it was active. -/
def Asked (tree : Tables E) (serial node : Nat) (base core : Core E) : Prop :=
  ∃ error view, Tells (.recovering serial error ⟨node, 0⟩ view) base core ∧
    tree.active view node = true

namespace Told

variable {tree : Tables E} {serial : Nat} {base core last : Core E}
  {faulted place : Slot} {walk walk' : Tables.Recovery}

theorem later (told : Told tree serial base faulted walk core)
    (longer : Longer core last) : Told tree serial base faulted walk last := by
  have wider := news_subset told.longer longer
  refine ⟨told.longer.trans longer, ?_, ?_, ?_⟩
  · intro site marked
    obtain ⟨place, moved⟩ := told.exits site marked
    exact ⟨place, moved.mono wider⟩
  · intro inner placed marked
    obtain ⟨place, moved, around⟩ := told.leaves inner placed marked
    exact ⟨place, moved.mono wider, around⟩
  · intro progress
    obtain ⟨place, moved, around⟩ := told.moves progress
    exact ⟨place, moved.mono wider, around⟩

/-- Behind a turn in which a row may have moved its slot. -/
theorem turn {moved : Bool} (told : Told tree serial base faulted walk core)
    (moves : moved = true → tree.Moved serial (news base core) place)
    (exits : ∀ site, walk'.exited site = true →
      walk.exited site = true ∨ moved = true)
    (leaves : ∀ inner, tree.Placed inner →
      walk'.exited (tree.site inner) = true →
        walk.exited (tree.site inner) = true ∨
          moved = true ∧ tree.Encloses place inner)
    (progress : walk'.recovery = some true →
      walk.recovery = some true ∨ moved = true ∧ tree.Encloses place faulted) :
    Told tree serial base faulted walk' core := by
  refine ⟨told.longer, ?_, ?_, ?_⟩
  · intro site marked
    rcases exits site marked with earlier | here
    · exact told.exits site earlier
    · exact ⟨place, moves here⟩
  · intro inner placed marked
    rcases leaves inner placed marked with earlier | ⟨here, around⟩
    · exact told.leaves inner placed earlier
    · exact ⟨place, moves here, around⟩
  · intro moving
    rcases progress moving with earlier | ⟨here, around⟩
    · exact told.moves earlier
    · exact ⟨place, moves here, around⟩

end Told

section Walk

variable {tree : Tree E} {calls : Calls E}
  (nested : ∀ event, Within Longer (calls.process_event event))
  {serial : Nat} {base : Core E} {error : E.Data} {faulted : Slot}

include nested

theorem exception_code_moved {place : Slot} {core last : Core E}
    {recovery : Option Bool} (longer : Longer base core)
    (asked : place.region = 0 ∧ tree.active core.view place.node = true ∨
      Asked tree.toTables serial place.node base core)
    (run : tree.exception_code calls serial place error core =
      .ok recovery last) :
    Longer core last ∧ Asked tree.toTables serial place.node base last ∧
      (recovery = some true → tree.Moved serial (news base last) place) := by
  obtain ⟨turn, moves⟩ := exception_code_tells nested run
  have onward : Longer core last := by
    obtain ⟨added, grown, _⟩ := turn
    exact ⟨added, grown.symm⟩
  have asked : Asked tree.toTables serial place.node base last := by
    rcases asked with ⟨first, active⟩ | ⟨error, view, tells, active⟩
    · obtain ⟨node, region⟩ := place
      dsimp only at first
      subst first
      exact ⟨error, core.view, .earlier longer turn, active⟩
    · exact ⟨error, view, tells.later onward, active⟩
  refine ⟨onward, asked, fun moved => ?_⟩
  obtain ⟨row, declared, kind, away, held, fired, replaced⟩ := moves moved
  have different : row.out_state.ident ≠ row.in_state.ident := by
    unfold StateTransition.exception_row_moves at away
    simp only [Bool.and_eq_true, decide_eq_true_eq] at away
    exact away.2
  obtain ⟨error, view, tells, active⟩ := asked
  exact ⟨⟨row, declared, core.view, kind, different, held,
    (Tells.earlier longer fired).mem_news,
    (Tells.earlier longer replaced).mem_news⟩, error, view, tells.mem_news,
    active⟩

variable (tracked : tree.track_settle_sites = true)
  (known : tree.Placed faulted)

include tracked known

theorem region_recovery_told {place : Slot} (inside : tree.Placed place)
    (orthogonal : (tree.node place.node).orthogonal = true)
    (walk : Tables.Recovery) :
    Triple
      (fun core => Told tree.toTables serial base faulted walk core ∧
        (place.region = 0 ∧ tree.active core.view place.node = true ∨
          Asked tree.toTables serial place.node base core))
      (tree.region_recovery calls serial error (tree.site faulted) walk place)
      (fun walk core => Told tree.toTables serial base faulted walk core ∧
        Asked tree.toTables serial place.node base core)
      fun _ _ => True := by
  rintro core ⟨told, asked⟩
  unfold Tables.region_recovery
  rw [bind_run]
  cases run : tree.exception_code calls serial place error core with
  | error fault last => trivial
  | ok recovery last =>
    obtain ⟨onward, asked, moves⟩ :=
      exception_code_moved nested told.longer asked run
    have told := told.later onward
    cases recovery with
    | none => exact ⟨told, asked⟩
    | some moved =>
      refine ⟨@Told.turn _ _ _ _ _ _ place _ _ moved told ?_ ?_ ?_ ?_, asked⟩
      · rintro rfl
        exact moves rfl
      · intro site marked
        simp only [Tables.mark, tracked, Bool.true_and, Bool.or_eq_true,
          Bool.and_eq_true] at marked
        exact marked.imp_right fun here => here.1
      · intro inner placed marked
        simp only [Tables.mark, tracked, Bool.true_and, Bool.or_eq_true,
          Bool.and_eq_true] at marked
        exact marked.imp_right fun here => ⟨here.1,
          tree.encloses_of_region_path placed inside orthogonal here.2⟩
      · intro progress
        simp only [tracked, if_true, Option.some.injEq, Bool.or_eq_true,
          Bool.and_eq_true, decide_eq_true_eq] at progress
        rcases progress with here | earlier
        · exact .inr ⟨here.1,
            tree.encloses_of_region_path known inside orthogonal here.2⟩
        · exact .inl earlier

theorem scalar_recovery_told {node : Nat} (positive : 0 < node)
    (inside : node < tree.size)
    (scalar : (tree.node node).orthogonal = false) (walk : Tables.Recovery) :
    Triple
      (fun core => Told tree.toTables serial base faulted walk core ∧
        tree.active core.view node = true)
      (tree.scalar_recovery calls serial error (tree.site faulted) walk node)
      (Told tree.toTables serial base faulted) fun _ _ => True := by
  rintro core ⟨told, active⟩
  unfold Tables.scalar_recovery
  cases taken : walk.recovery with
  | some verdict => exact told
  | none =>
    dsimp only
    rw [bind_run]
    cases run : tree.exception_code calls serial ⟨node, 0⟩ error core with
    | error fault last => trivial
    | ok recovery last =>
      obtain ⟨onward, _, moves⟩ :=
        exception_code_moved nested told.longer (.inl ⟨rfl, active⟩) run
      have told := told.later onward
      cases recovery with
      | none => exact told
      | some moved =>
        apply @Told.turn _ _ _ _ _ _ ⟨node, 0⟩ _ _ moved told
        · rintro rfl
          exact moves rfl
        · intro site marked
          simp only [Tables.mark, tracked, Bool.true_and, Bool.or_eq_true,
            Bool.and_eq_true] at marked
          exact marked.imp_right fun here => here.1
        · intro inner placed marked
          simp only [Tables.mark, tracked, Bool.true_and, Bool.or_eq_true,
            Bool.and_eq_true] at marked
          exact marked.imp_right fun here => ⟨here.1,
            tree.encloses_of_subtree placed positive inside scalar here.2⟩
        · intro progress
          simp only [tracked, if_true, Option.some.injEq,
            Bool.and_eq_true] at progress
          exact .inr ⟨progress.1,
            tree.encloses_of_subtree known positive inside scalar progress.2⟩

theorem root_recovery_told (scalar : (tree.node 0).orthogonal = false)
    (walk : Tables.Recovery) :
    Triple
      (fun core => Told tree.toTables serial base faulted walk core ∧
        tree.active core.view 0 = true)
      (tree.root_recovery calls serial error walk)
      (Told tree.toTables serial base faulted) fun _ _ => True := by
  rintro core ⟨told, active⟩
  unfold Tables.root_recovery
  cases taken : walk.recovery with
  | some verdict => exact told
  | none =>
    dsimp only
    rw [bind_run]
    cases run : tree.exception_code calls serial ⟨0, 0⟩ error core with
    | error fault last => trivial
    | ok recovery last =>
      obtain ⟨onward, _, moves⟩ :=
        exception_code_moved nested told.longer (.inl ⟨rfl, active⟩) run
      have told := told.later onward
      cases recovery with
      | none => exact told
      | some moved =>
        apply @Told.turn _ _ _ _ _ _ ⟨0, 0⟩ _ _ moved told
        · rintro rfl
          exact moves rfl
        · intro site marked
          simpa [tracked] using marked
        · intro inner placed marked
          have marked : walk.exited (tree.site inner) = true ∨ moved = true := by
            simpa [tracked] using marked
          exact marked.imp_right fun here =>
            ⟨here, tree.root_encloses placed scalar⟩
        · intro progress
          have here : moved = true := by simpa using progress
          exact .inr ⟨here, tree.root_encloses known scalar⟩

/-- The exception block of a table. -/
theorem node_recovery_told {node : Nat} (among : node ∈ tree.blocks ++ [0])
    (walk : Tables.Recovery) :
    Triple (Told tree.toTables serial base faulted walk)
      (tree.node_recovery calls serial error (tree.site faulted) walk node)
      (Told tree.toTables serial base faulted) fun _ _ => True := by
  intro core told
  unfold Tables.node_recovery
  rw [get_bind_run]
  by_cases active : tree.active core.view node = true
  swap
  · simp only [active]
    exact told
  simp only [active, Bool.not_true, Bool.false_eq_true, if_false]
  cases orthogonal : (tree.node node).orthogonal with
  | true =>
    have regions := @Triple.foldlM _ _ _ _
      (tree.region_recovery calls serial error (tree.site faulted))
      (fun _ _ => True)
      (fun front (walk : Tables.Recovery) core' =>
        Told tree.toTables serial base faulted walk core' ∧
          (front = [] ∧ tree.active core'.view node = true ∨
            Asked tree.toTables serial node base core'))
      (tree.slots node) ?_ walk
    · have ends := regions core ⟨told, .inl ⟨rfl, active⟩⟩
      revert ends
      rw [if_pos rfl]
      cases (tree.slots node).foldlM (tree.region_recovery calls serial error
        (tree.site faulted)) walk core with
      | ok walk' last => exact fun ends => ends.1
      | error fault last => exact fun _ => trivial
    intro front place back walk split
    have slot : place ∈ tree.slots node := by simp [split]
    have inside := tree.placed_of_walk among slot
    obtain ⟨rfl, _⟩ := Tables.mem_slots.mp slot
    have turn := @region_recovery_told _ _ _ nested serial base error _ tracked
      known place inside orthogonal walk
    apply turn.conseq
    · rintro core' ⟨told, asked⟩
      refine ⟨told, asked.imp_left ?_⟩
      rintro ⟨rfl, active⟩
      exact ⟨Tables.first_slot split, active⟩
    · exact fun walk core' ends => ⟨ends.1, .inr ends.2⟩
    · exact fun _ _ => id
  | false =>
    rw [if_neg (by simp)]
    by_cases root : node = 0
    · subst root
      rw [if_pos rfl]
      exact root_recovery_told nested tracked known orthogonal walk core
        ⟨told, active⟩
    · rw [if_neg root]
      have inside : 0 < node ∧ node < tree.size := by
        simpa [Tables.mem_blocks, root] using among
      exact scalar_recovery_told nested tracked known inside.1 inside.2
        orthogonal walk core ⟨told, active⟩

/-- What a walk that returns has done. -/
theorem recover_walk_told {walk : Tables.Recovery} {core last : Core E}
    (run : tree.recover_walk calls error (tree.site faulted) core =
      .ok walk last) :
    Told tree.toTables core.serial core faulted walk last := by
  have offered : Told tree.toTables core.serial core faulted
      ⟨none, fun _ => false⟩ ({ core with serial := core.serial + 1 }.note
        (.offered core.serial)) :=
    { longer := List.suffix_cons _ _
      exits := fun _ marked => by cases marked
      leaves := fun _ _ marked => by cases marked
      moves := fun progress => by cases progress }
  have blocks : Triple (Told tree.toTables core.serial core faulted
      ⟨none, fun _ => false⟩)
      (tree.recovery_blocks calls core.serial error (tree.site faulted))
      (Told tree.toTables core.serial core faulted) fun _ _ => True :=
    Triple.fold (fun walk _ among =>
      node_recovery_told nested tracked known among walk) _
  exact blocks.ok offered run

end Walk

/-! ### Marks -/

/-- How many sites are not settled. -/
def Tables.unsettled (tree : Tables E) (settled : Nat → Bool) : Nat :=
  ((Finset.range tree.site_count).filter fun site => settled site = false).card

theorem unsettled_update {tree : Tables E} {settled : Nat → Bool} {site : Nat}
    (inside : site < tree.site_count) (fresh : settled site = false) :
    tree.unsettled (Function.update settled site true) + 1 =
      tree.unsettled settled := by
  have erased : ((Finset.range tree.site_count).filter fun other =>
      Function.update settled site true other = false) =
        ((Finset.range tree.site_count).filter fun other =>
          settled other = false).erase site := by
    ext other
    by_cases same : other = site
    · simp [same]
    · simp [same]
  have counted : site ∈ (Finset.range tree.site_count).filter fun other =>
      settled other = false := by
    simp [inside, fresh]
  have positive := Finset.card_pos.mpr ⟨site, counted⟩
  unfold Tables.unsettled
  rw [erased, Finset.card_erase_of_mem counted]
  omega

theorem unsettled_le (tree : Tables E) (settled : Nat → Bool) :
    tree.unsettled settled ≤ tree.site_count := by
  have counted := Finset.card_filter_le (Finset.range tree.site_count)
    fun site => settled site = false
  rw [Finset.card_range] at counted
  exact counted

section Laps

variable {tree : Tree E} {calls : Calls E}
  (nested : ∀ event, Within Longer (calls.process_event event))
  (tracked : tree.track_settle_sites = true) {loop next : Loop E}

include nested tracked

/-- What one recovered fault does to the marks: it faulted in a site that was not
settled, it clears only marks of slots whose occupancy it has ended, and where it
has not ended the occupancy of the faulting slot, it settles that slot. -/
theorem recovered_marks {rescue : Rescue E}
    (lap : tree.Lap calls loop (some rescue) next) :
    tree.Placed rescue.place ∧
      loop.settled (tree.site rescue.place) = false ∧
      (∀ inner, tree.Placed inner →
        ¬ tree.Vacates rescue.serial rescue.record inner →
          loop.settled (tree.site inner) = true →
            next.settled (tree.site inner) = true) ∧
      (¬ tree.Vacates rescue.serial rescue.record rescue.place →
        next.settled (tree.site rescue.place) = true) ∧
      ((∀ place, ¬ tree.Moved rescue.serial rescue.record place) →
        next.settled =
          Function.update loop.settled (tree.site rescue.place) true) := by
  cases lap with
  | @recovered _ _ _ origin settled place fault _ walk moved placed failed _ _
      walked handled _ =>
    have told := recover_walk_told nested tracked placed walked
    obtain ⟨other, placed', same, fresh⟩ :=
      Triple.error (completion_step_open origin settled) trivial failed
    have here : place = other := tree.site_injective placed placed' same
    subst here
    have fresh : settled (tree.site place) = false := by
      simpa [Tables.is_settled, tracked] using fresh
    simp only [tracked, if_true]
    refine ⟨placed, fresh, ?_, ?_, ?_⟩
    · intro inner within stays marked
      have kept : walk.exited (tree.site inner) ≠ true :=
        fun exited => stays (told.leaves inner within exited)
      simp [Tables.settle, marked, kept]
    · intro stays
      have still : moved = false := by
        cases moved with
        | false => rfl
        | true => exact absurd (told.moves handled) stays
      simp [Tables.settle, still]
    · intro quiet
      have still : moved = false := by
        cases moved with
        | false => rfl
        | true =>
          obtain ⟨place, here, _⟩ := told.moves handled
          exact absurd here (quiet place)
      have unmarked (site : Nat) : walk.exited site = false := by
        cases marked : walk.exited site with
        | false => rfl
        | true =>
          obtain ⟨place, here⟩ := told.exits site marked
          exact absurd here (quiet place)
      funext site
      by_cases same : site = tree.site place
      · simp [Tables.settle, still, same]
      · simp [Tables.settle, unmarked, same]

/-- A pass in which no exception row moves a slot is paid for with a site. -/
theorem lap_spends {label : Option (Rescue E)}
    (lap : tree.Lap calls loop label next)
    (quiet : ∀ rescue, label = some rescue →
      ∀ place, ¬ tree.Moved rescue.serial rescue.record place) :
    (if label.isSome then 1 else 0) + tree.unsettled next.settled ≤
      tree.unsettled loop.settled := by
  cases label with
  | none =>
    cases lap with
    | completed ran => simp
  | some rescue =>
    obtain ⟨placed, fresh, _, _, marks⟩ := recovered_marks nested tracked lap
    rw [marks (quiet rescue rfl)]
    have spent := unsettled_update (tree.site_lt_count placed) fresh
    simp only [Option.isSome_some, if_true]
    omega

/-- A settled site stays settled until its occupancy ends. -/
theorem lap_keeps {label : Option (Rescue E)} {place : Slot}
    (placed : tree.Placed place) (lap : tree.Lap calls loop label next)
    (stays : ∀ rescue, label = some rescue →
      ¬ tree.Vacates rescue.serial rescue.record place)
    (marked : loop.settled (tree.site place) = true) :
    next.settled (tree.site place) = true := by
  cases label with
  | none =>
    cases lap with
    | completed ran => exact marked
  | some rescue =>
    obtain ⟨_, _, keeps, _⟩ := recovered_marks nested tracked lap
    exact keeps place placed (stays rescue rfl) marked

end Laps

/-! ### Completion faults cannot spin -/

/-- The passes of `stabilize` where calls are nested at most `fuel` deep. -/
abbrev Tables.Cycle (tree : Tables E) (fuel : Nat) :
    Loop E → Option (Rescue E) → Loop E → Prop :=
  tree.Lap ⟨tree.process_event fuel, fuel⟩

/-- A recovered fault has moved a slot to a different state, or it settles one
more site and clears no mark. So no more faults are recovered between two moves
than there are sites, and completions that faulted are not run again as long as
their slot is occupied as it was. -/
theorem completion_faults_settle (tree : Tree E)
    (tracked : tree.track_settle_sites = true) (fuel : Nat) (loop : Loop E) :
    (∀ rescue next, tree.Cycle fuel loop (some rescue) next →
      (∃ place, tree.Moved rescue.serial rescue.record place) ∨
        loop.settled (tree.site rescue.place) = false ∧
          next.settled =
            Function.update loop.settled (tree.site rescue.place) true) ∧
    (∀ labels last,
      TraceWhere (tree.Cycle fuel)
        (fun _ label => ∀ rescue, label = some rescue →
          ∀ place, ¬ tree.Moved rescue.serial rescue.record place)
        loop labels last →
          labels.countP Option.isSome ≤ tree.site_count) ∧
    (∀ rescue next labels last, tree.Cycle fuel loop (some rescue) next →
      ¬ tree.Vacates rescue.serial rescue.record rescue.place →
      TraceWhere (tree.Cycle fuel)
        (fun _ label => ∀ later, label = some later →
          ¬ tree.Vacates later.serial later.record rescue.place)
        next labels last →
          ∀ calls origin, tree.completion_site calls origin last.settled
            rescue.place = pure false) := by
  have nested (event : Event E) : Within Longer (tree.process_event fuel event) :=
    ((longer_steps tree.toTables).keeps id).process_event fuel event
  refine ⟨?_, ?_, ?_⟩
  · intro rescue next lap
    obtain ⟨_, fresh, _, _, marks⟩ := recovered_marks nested tracked lap
    by_cases moves : ∃ place, tree.Moved rescue.serial rescue.record place
    · exact .inl moves
    · exact .inr ⟨fresh, marks fun place moved => moves ⟨place, moved⟩⟩
  · intro labels last laps
    have spent := TraceWhere.budget laps fun _ _ _ =>
      lap_spends nested tracked
    have bound := unsettled_le tree.toTables loop.settled
    omega
  · intro rescue next labels last lap stays laps calls origin
    obtain ⟨placed, _, _, settles, _⟩ := recovered_marks nested tracked lap
    have marked := @TraceWhere.invariant _ _ _ _
      (fun loop => loop.settled (tree.site rescue.place) = true) _ _ _ laps
      (fun _ _ _ => lap_keeps nested tracked placed) (settles stays)
    have settled : tree.is_settled last.settled rescue.place = true := by
      simp [Tables.is_settled, tracked, marked]
    unfold Tables.completion_site
    rw [if_pos settled]

/-- Two regions. The completion of the first one fails, and the row for the error
stays where it is. -/
def jammed : Tree sample where
  size := 1
  node _ :=
    { owner := 0, variant := Name.X, depth := 0
      transitions :=
        [{ in_state := plain 0,
           event := { kind := .completion, ident := Name.X, wildcard := true },
           actions := [Name.fails], out_state := plain 1 },
         rescue (plain 0)]
      regions := [⟨Name.state 0, [Name.state 0, .state 1]⟩,
        ⟨Name.state 2, [Name.state 2]⟩] }
  size_pos := Nat.one_pos
  root_depth := by decide
  owner_lt := by decide
  depth_owner := by decide
  regions_pos := by decide
  variants := by decide
  in_composite := by decide
  out_composite := by decide

theorem jammed_stays (serial : Nat) (record : List (Happening sample))
    (place : Slot) : ¬ jammed.Moved serial record place := by
  rintro ⟨⟨row, declared, _, kind, away, _⟩, _⟩
  simp only [jammed, List.mem_cons, List.not_mem_nil, or_false] at declared
  rcases declared with rfl | rfl
  · cases kind
  · exact away rfl

/-- The completion of the first region fails once. -/
theorem jammed_lap : ∃ rescue next,
    jammed.Cycle 3 ⟨jammed.new (), none, fun _ => false⟩ (some rescue) next ∧
      rescue.place = ⟨0, 0⟩ :=
  ⟨_, _, @Tables.Lap.recovered _ _ _ _ _ _ _ _ ⟨0, 0⟩ _ _ _ _
    ⟨by decide, by decide⟩ rfl rfl (by decide) rfl rfl (.inl (by decide)), rfl⟩

theorem completion_faults_settle_jammed : ∃ rescue next,
    jammed.Cycle 3 ⟨jammed.new (), none, fun _ => false⟩ (some rescue) next ∧
      rescue.place = ⟨0, 0⟩ ∧
      ∀ calls origin, jammed.completion_site calls origin next.settled ⟨0, 0⟩ =
        pure false := by
  obtain ⟨rescue, next, lap, here⟩ := jammed_lap
  have settles := (completion_faults_settle jammed (by decide) 3
    ⟨jammed.new (), none, fun _ => false⟩).2.2 rescue next [] next lap
      (fun vacates => jammed_stays _ _ _ vacates.choose_spec.1) .nil
  rw [here] at settles
  exact ⟨rescue, next, lap, here, settles⟩

end SmlRs.Macros
