/-
Module: SmlRs.Macros.Subtrees
Purpose: What a row between two composite states does to the tables nested in
  them.
Trusted boundary: none
Main exports: Nested, SubtreesMoved, Local, move_local,
  subtrees_never_moved
-/
import SmlRs.Macros.Routing

namespace SmlRs.Macros

open Lib

variable {E : Environment}

/-- The slot whose occupancy a happening is about. -/
def Happening.occupied : Happening E → Option Slot
  | .exited place | .entered place | .replaced place _ | .reset place =>
      some place
  | _ => none

namespace Tables

variable (tree : Tables E)

/-- The slots that are active while a table is in a state, at any depth. -/
inductive Nested (view : View E) (owner : Nat) (state : E.Ident) : Slot → Prop
  | child {inner : Slot} (owned : tree.child owner state = some inner.node)
      (region : inner.region < (tree.node inner.node).regions.length) :
      Nested view owner state inner
  | deeper {middle inner : Slot} (outer : Nested view owner state middle)
      (owned : tree.child middle.node (view.state middle).ident =
        some inner.node)
      (region : inner.region < (tree.node inner.node).regions.length) :
      Nested view owner state inner

/-- What an external row between composite states is to do with the tables
nested in them, their order left aside: those of its source are exited unless
they were before, and those of its target are reset, unless they keep their
history, and entered with their tokens cleared. -/
structure SubtreesMoved (place : Slot) (row : StateTransition E)
    (core core' : Core E) : Prop where
  exited : ∀ inner,
    tree.Nested core.view place.node row.in_state.ident inner →
      core.view.exit_skip inner = false → .exited inner ∈ news core core'
  entered : ∀ inner,
    tree.Nested core'.view place.node row.out_state.ident inner →
      .entered inner ∈ news core core' ∧ core'.view.exit_skip inner = false ∧
        ((tree.node inner.node).history = false →
          .reset inner ∈ news core core')

end Tables

/-- Nothing happens to the occupancies of other slots. -/
def Local (place : Slot) (core core' : Core E) : Prop :=
  (∀ other, other ≠ place →
    core'.view.state other = core.view.state other ∧
      core'.view.exit_skip other = core.view.exit_skip other) ∧
  ∃ added, core'.trace = added ++ core.trace ∧
    ∀ happening ∈ added, ∀ other, happening.occupied = some other →
      other = place

section Local

variable {place : Slot} {tree : Tables E}

theorem local_frame : Frame (Local (E := E) place) where
  refl _ := ⟨fun _ _ => ⟨rfl, rfl⟩, [], rfl, by simp⟩
  trans first second := by
    obtain ⟨same, added, grown, here⟩ := first
    obtain ⟨same', added', grown', here'⟩ := second
    refine ⟨fun other differs => ?_, added' ++ added, ?_, ?_⟩
    · exact ⟨((same' other differs).1).trans (same other differs).1,
        ((same' other differs).2).trans (same other differs).2⟩
    · rw [grown', grown, List.append_assoc]
    · intro happening among
      rcases List.mem_append.mp among with later | earlier
      · exact here' happening later
      · exact here happening earlier

theorem local_note {core : Core E} {happening : Happening E}
    (here : ∀ other, happening.occupied = some other → other = place) :
    Local place core (core.note happening) :=
  ⟨fun _ _ => ⟨rfl, rfl⟩, [happening], rfl, by simpa using here⟩

theorem local_quiet : Quiet (Local (E := E) place) where
  frame := local_frame
  world _ _ := ⟨fun _ _ => ⟨rfl, rfl⟩, [], rfl, by simp⟩
  deferred _ _ := ⟨fun _ _ => ⟨rfl, rfl⟩, [], rfl, by simp⟩
  pending _ _ := ⟨fun _ _ => ⟨rfl, rfl⟩, [], rfl, by simp⟩
  outer core happening outside := by
    refine local_note fun other owned => ?_
    cases happening <;> simp_all [Happening.outer, Happening.occupied]

theorem local_set_skip (token : Bool) :
    Within (Local (E := E) place) (set_skip place token) := by
  refine Within.modifies fun core => ?_
  exact ⟨fun other differs => ⟨rfl, by simp [differs]⟩, [], rfl, by simp⟩

theorem local_set_state (value : StateValue E) :
    Within (Local (E := E) place) (set_state place value) := by
  refine Within.modifies fun core => ?_
  exact ⟨fun other differs => ⟨by simp [differs], rfl⟩, [], rfl, by simp⟩

theorem local_noted {happening : Happening E}
    (here : ∀ other, happening.occupied = some other → other = place) :
    Within (Local place) (note happening) :=
  Within.modifies fun _ => local_note here

variable {row : StateTransition E} {payload : Tables.Payload E} {cause : Cause}
  (composite : row.in_state.composite = row.out_state.composite)

include composite

/-- A row whose ends are of the same kind leaves every other slot alone. -/
theorem move_local : Within (Local place) (tree.move cause place row payload) := by
  have quiet : Quiet (Local (E := E) place) := local_quiet
  have skips (flag : Bool) (effect : Effect E Unit) :
      Within (Local place) (given (flag && !flag) effect) := by
    cases flag <;> exact Within.returns quiet.frame ()
  refine Within.seq quiet.frame ?_ fun _ => ?_
  · refine Within.seq quiet.frame (Within.gets quiet.frame) fun core => ?_
    refine Within.seq quiet.frame ?_ fun _ => local_set_skip true
    unfold Tables.exits
    split
    · exact local_set_skip false
    rw [composite]
    refine Within.seq quiet.frame (skips _ _) fun _ => ?_
    refine Within.seq quiet.frame (quiet.action_calls _ _) fun _ => ?_
    exact local_noted (by simp [Happening.occupied])
  refine Within.seq quiet.frame (quiet.run_actions row payload)
    fun output => ?_
  refine Within.seq quiet.frame (Within.gets quiet.frame) fun core => ?_
  refine Within.seq quiet.frame (local_noted (by simp [Happening.occupied]))
    fun _ => ?_
  refine Within.seq quiet.frame (local_set_state _) fun _ => ?_
  refine Within.seq quiet.frame (local_set_skip false) fun _ => ?_
  refine Within.seq quiet.frame (local_noted (by simp [Happening.occupied]))
    fun _ => ?_
  refine Within.seq quiet.frame ?_ fun _ => ?_
  · exact given_within quiet.frame (local_noted (by simp [Happening.occupied]))
  refine marking_within quiet.frame ?_
    fun fault core => local_note (by simp [Happening.occupied])
  refine Within.seq quiet.frame (quiet.action_calls _ _) fun _ => ?_
  rw [← composite]
  exact skips _ _

end Local

section Composite

variable (tree : Tree E) {place : Slot} (placed : tree.Placed place)
  {row : StateTransition E}
  (declared : row ∈ (tree.node place.node).transitions)
  (external : row.internal_transition = false)
  (source : row.in_state.composite = true)
  (target : row.out_state.composite = true) {cause : Cause}
  {payload : Tables.Payload E} {core core' : Core E}
  (run : tree.move cause place row payload core = .ok () core')

include placed declared external source target run

/-- The target has a table, the table has a slot, and the slot is left out. -/
theorem target_not_entered :
    ∃ inner, tree.Nested core'.view place.node row.out_state.ident inner ∧
      .entered inner ∉ news core core' := by
  have composite := tree.out_composite place.node placed.1 row declared external
  rw [target, eq_comm, Option.isSome_iff_exists] at composite
  obtain ⟨node, owned⟩ := composite
  have inside := (tree.child_spec owned).1.2
  refine ⟨⟨node, 0⟩, .child owned (tree.regions_pos node inside), ?_⟩
  intro entered
  have stays : Within (Local place) (tree.move cause place row payload) :=
    move_local (by rw [source, target])
  obtain ⟨_, added, grown, here⟩ := stays.ok run
  rw [news_of_append grown] at entered
  have same := here _ entered ⟨node, 0⟩ rfl
  have above := tree.owner_lt_child owned
  rw [← same] at above
  exact Nat.lt_irrefl _ above

end Composite

/-! ### A row from one composite state to another -/

/-- A root with two composite states, and a row between them. -/
def twins : Tree sample where
  size := 3
  node
    | 0 =>
        { scalar 0 [1]
            [{ in_state := nested 0, event := on 0, out_state := nested 1 }] with
          owner := 0, variant := Name.X, depth := 0 }
    | 1 => { scalar 2 [] [] with owner := 0, variant := Name.state 0, depth := 1 }
    | 2 => { scalar 3 [] [] with owner := 0, variant := Name.state 1, depth := 1 }
    | _ => { scalar 4 [] [] with owner := 0, variant := Name.X, depth := 1 }
  size_pos := three_tables
  root_depth := by decide
  owner_lt := by decide
  depth_owner := by decide
  regions_pos := by decide
  variants := by decide
  in_composite := by decide
  out_composite := by decide

/-- The row of the root. -/
def twins_row : StateTransition sample :=
  { in_state := nested 0, event := on 0, out_state := nested 1 }

/-- The core behind the row. -/
def twins_moved : Core sample :=
  final (twins.move (.event 0) ⟨0, 0⟩ twins_row ⟨(), ()⟩) (twins.new ())

theorem twins_run :
    twins.move (.event 0) ⟨0, 0⟩ twins_row ⟨(), ()⟩ (twins.new ()) =
      .ok () twins_moved := rfl

theorem twins_placed : twins.Placed ⟨0, 0⟩ :=
  ⟨by decide, by decide⟩

theorem twins_declared : twins_row ∈ (twins.node 0).transitions :=
  List.mem_singleton.mpr rfl

end SmlRs.Macros
