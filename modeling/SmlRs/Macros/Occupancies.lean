/-
Module: SmlRs.Macros.Occupancies
Purpose: Each state of a composite that is left is exited once, in runs whose
  external rows begin at live sources.
Trusted boundary: none
Main exports: Uncrossed, change_shut, begun_shut, left_once
-/
import SmlRs.Macros.Leaving

namespace SmlRs.Macros

open Lib

variable {E : Environment}

/-- No row goes from a composite state to a composite state. -/
def Tree.Uncrossed (tree : Tree E) : Prop :=
  ∀ node < tree.size, ∀ row ∈ (tree.node node).transitions,
    row.internal_transition = false →
      ¬ (row.in_state.composite = true ∧ row.out_state.composite = true)

namespace Tree

variable {tree : Tree E} {core core' : Core E} {place : Slot}

/-! ### One row -/

section Row

variable {cause : Cause} {row : StateTransition E} {payload : Tables.Payload E}

/-- A slot has been left and is live. -/
structure Departed (tree : Tree E) (place : Slot) (core : Core E) : Prop where
  shut : tree.Shut core
  live : tree.Live core.view place
  left : core.view.exit_skip place = true

theorem Departed.acts (departed : tree.Departed place core) (acts : Acts core core') :
    tree.Departed place core' where
  shut := departed.shut.still acts.2.1 acts.1 acts.2.2
  live := live_congr departed.live fun other _ =>
    ⟨congrFun acts.2.1 other, congrFun acts.1 other⟩
  left := by
    rw [acts.1]
    exact departed.left

theorem leave_departed (inside : place.node < tree.size)
    (declared : row ∈ (tree.node place.node).transitions)
    (apart : ¬ (row.in_state.composite = true ∧ row.out_state.composite = true))
    (shut : tree.Shut core)
    (source : (core.view.state place).ident = row.in_state.ident)
    (live : tree.Live core.view place) :
    Triple (· = core) (tree.leave place row payload)
      (fun _ => tree.Departed place) fun _ => tree.Shut := by
  have closes := @leave_closing _ tree place core.view.state row payload inside declared
    apart source
  have lower : Triple (Lower place core) (tree.leave place row payload)
      (fun _ => Lower place core) fun _ => Lower place core :=
    leave_lower.triple fun moved before other above =>
      (moved other above).trans (before other above)
  apply (closes.both lower).conseq
  · rintro before rfl
    exact ⟨⟨shut, rfl, fun _ => False.elim⟩, fun _ _ => rfl⟩
  · intro _ after ends
    obtain ⟨closing, lower⟩ := ends
    refine ⟨closing.shut, ?_, closing.closed place rfl⟩
    apply live_congr live
    intro other above
    exact ⟨congrFun closing.states other, lower other above⟩
  · exact fun _ _ ends => ends.1

variable {output : E.Data}

theorem arrive_shut (parted : tree.Parted)
    (listed : row ∈ tree.rows place row.in_state.ident)
    (external : row.internal_transition = false) :
    Triple (tree.Departed place) (tree.arrive cause place row output)
      (fun _ => tree.Shut) fun _ => tree.Shut := by
  intro core departed
  have declared := (Tables.mem_rows listed).1
  obtain ⟨shut, live, left⟩ := departed
  have opening : tree.Opening place (tree.arrived cause place row output core) := by
    refine ⟨shut_arrived parted shut declared listed external left live, ?_, ?_, ?_⟩
    · rw [arrived_view]
      exact live_replace live left
    · rw [arrived_view]
      exact Function.update_self _ _ _
    · intro node owned
      rw [arrived_view, View.skip_state, View.replace_state,
        Function.update_self] at owned
      exact unopened_arrived parted shut declared listed external left
        (live_placed live) owned
  have entries : Triple (tree.Opening place) (tree.entries place row output)
      (fun _ => tree.Shut) fun _ => tree.Shut := by
    have hooks := (acts_acting (E := E)).action_calls
      ((tree.node place.node).hooks .entry row.out_state.ident)
      (if row.target_has_data then [output] else [])
    apply Triple.seq ((hooks.triple fun acts (opening : tree.Opening place _) =>
      opening.acts acts).conseq (fun _ => id) (fun _ _ => id)
        fun _ _ ends => ends.shut)
    intro _
    unfold given
    split
    · intro before opening
      have walks := enter_children_shut parted tree.size place before opening
      exact walks.conseq (fun _ => id) (fun _ _ ends => ends.1) (fun _ _ => id)
        before rfl
    · exact Triple.returns fun _ opening => opening.shut
  rw [tree.arrive_run]
  apply Triple.marked _ _ opening
  apply entries.conseq (fun _ => id) (fun _ _ => id)
  intro _ after shut
  exact shut.note trivial

theorem change_shut (parted : tree.Parted) (uncrossed : tree.Uncrossed)
    (inside : place.node < tree.size)
    (listed : row ∈ tree.rows place row.in_state.ident) (shut : tree.Shut core)
    (begins : row.internal_transition = false →
      (core.view.state place).ident = row.in_state.ident ∧ tree.Live core.view place) :
    tree.Shut (final (tree.change cause place row payload) core) := by
  have declared := (Tables.mem_rows listed).1
  unfold Tables.change
  split
  · have items : Within Acts (do
        let _ ← run_items (row.callback_args payload.state_data payload.event_data)
          row.items : Effect E Unit) :=
      Within.seq acts_acting.frame (acts_acting.run_items _ _)
        fun _ => Within.returns acts_acting.frame ()
    have acts := items.final core
    exact shut.still acts.2.1 acts.1 acts.2.2
  · rename_i external
    simp only [Bool.not_eq_true] at external
    obtain ⟨source, live⟩ := begins external
    have moves : Triple (· = core) (tree.move cause place row payload)
        (fun _ => tree.Shut) fun _ => tree.Shut := by
      apply Triple.seq (leave_departed inside declared
        (uncrossed _ inside row declared external) shut source live)
      intro _
      have actions : Triple (tree.Departed place) (Tables.run_actions row payload)
          (fun _ => tree.Departed place) fun _ => tree.Shut := by
        have acts : Within Acts (Tables.run_actions row payload) :=
          Within.seq acts_acting.frame (acts_acting.run_items _ _)
            fun _ => Within.returns acts_acting.frame _
        exact (acts.triple fun acts departed => departed.acts acts).conseq
          (fun _ => id) (fun _ _ => id) fun _ _ ends => ends.shut
      exact Triple.seq actions fun _ => arrive_shut parted listed external
    exact moves.final rfl

end Row

/-! ### The entries of a new machine -/

theorem root_mem : ⟨0, 0⟩ ∈ tree.slots 0 :=
  Tables.mem_slots.mpr ⟨rfl, tree.regions_pos 0 tree.size_pos⟩

theorem fresh_shut (parted : tree.Parted) (world : E.World) :
    tree.Shut (tree.new world) where
  counted := ⟨fun _ => rfl, trivial⟩
  seated node inside orthogonal := by
    obtain ⟨blank, rows, generated⟩ := parted.regions node inside orthogonal
    exact in_regions_new generated world
  shut _ _ entered := absurd entered List.not_mem_nil
  left := trivial

/-- An initial slot with its token not set is entered as any other one. -/
theorem initial_entry_opened (free : core.view.exit_skip place = false) :
    Triple (· = core) (tree.initial_entry place)
      (fun _ => Acts (opened place core)) fun _ => Acts (opened place core) := by
  rintro before rfl
  have same : before.view.skip place false = before.view := by
    unfold View.skip
    rw [← free, Function.update_eq_self]
  have hooks := (acts_acting (E := E)).action_calls
    ((tree.node place.node).hooks .entry (tree.initial place))
    (if (tree.node place.node).has_data (tree.initial place) then
      [(before.view.state place).data] else [])
  have ran := hooks (opened place before)
  unfold opened at ran ⊢
  rw [same] at ran ⊢
  exact ran

/-- The slots of a new root are entered with no token set. -/
structure Starting (tree : Tree E) (core : Core E) : Prop where
  shut : tree.Shut core
  free : ∀ inner, core.view.exit_skip inner = false

theorem Starting.entry (among : place ∈ tree.slots 0) :
    Triple tree.Starting (tree.initial_entry place) (fun _ => tree.Starting)
      fun _ => tree.Starting := by
  intro core starting
  have each {core' : Core E} (acts : Acts (opened place core) core') :
      tree.Starting core' := by
    refine ⟨?_, fun inner => ?_⟩
    · have shut := starting.shut.opened (.root among)
      exact shut.still acts.2.1 acts.1 acts.2.2
    · rw [acts.1]
      by_cases here : inner = place
      · rw [here]
        exact Function.update_self _ _ _
      · exact (Function.update_of_ne here _ _).trans (starting.free inner)
  have opens := @initial_entry_opened _ tree core place (starting.free place)
  exact (opens.conseq (fun _ => id) (fun _ _ => each) fun _ _ => each) core rfl

/-- Entering the initial configuration shuts what it does not hold. -/
theorem begun_shut (parted : tree.Parted) (world : E.World) :
    tree.Shut (final tree.initial_entries (tree.new world)) := by
  have shut := fresh_shut parted world
  have starting : tree.Starting (tree.new world) := ⟨shut, fun _ => rfl⟩
  have alone : Triple tree.Starting (tree.initial_entry ⟨0, 0⟩)
      (fun _ => tree.Starting) fun _ => tree.Starting := Starting.entry root_mem
  unfold Tables.initial_entries
  split
  · have each : Triple tree.Starting ((tree.slots 0).forM tree.initial_entry)
        (fun _ => tree.Starting) fun _ => tree.Starting :=
      Triple.loop fun _ among => Starting.entry among
    exact (each.final starting).shut
  split
  · exact (alone.final starting).shut
  split
  · have waiting : tree.Waiting 0 (tree.new world) [] (tree.new world) :=
      { shut := shut
        aside := fun inner _ => (untouched_frame inner).refl _
        waiting := fun inner _ _ entered => absurd entered List.not_mem_nil }
    have slots := @enter_slots_shut _ _ 0 (tree.new world) parted _
      (enter_children_shut parted tree.size) fun _ among => .root among
    have shuts := slots.conseq (fun _ => id) (fun _ _ ends => ends.shut) fun _ _ => id
    exact shuts.final waiting
  · have opens : Triple (· = tree.new world) (tree.initial_entry ⟨0, 0⟩)
        (fun _ => tree.Opening ⟨0, 0⟩) fun _ => tree.Shut := by
      have opening : tree.Opening ⟨0, 0⟩ (opened ⟨0, 0⟩ (tree.new world)) := by
        refine ⟨shut.opened (.root root_mem), .root root_mem, ?_, ?_⟩
        · exact opened_free
        · intro node owned inner _ under entered
          have lower := tree.owner_lt_child owned
          have behind := tree.le_of_within under
          have same : inner = ⟨0, 0⟩ := by
            simpa [opened, Tables.new] using entered
          rw [same] at behind
          omega
      apply (initial_entry_opened rfl).conseq (fun _ => id)
      · exact fun _ _ acts => opening.acts acts
      · exact fun _ _ acts => (opening.acts acts).shut
    have nested : Triple (tree.Opening ⟨0, 0⟩) (tree.composite_entry ⟨0, 0⟩)
        (fun _ => tree.Shut) fun _ => tree.Shut := by
      intro before opening
      have walks := enter_children_shut parted tree.size ⟨0, 0⟩ before opening
      exact walks.conseq (fun _ => id) (fun _ _ ends => ends.1) (fun _ _ => id)
        before rfl
    exact (Triple.seq opens fun _ => nested).final rfl

/-! ### Runs -/

theorem observing_shut (parted : tree.Parted) (uncrossed : tree.Uncrossed) :
    Observing tree tree.FromLive tree.Shut where
  still := fun states tokens trace shut => shut.still states tokens trace
  noted _ happening around shut := by
    apply shut.note
    cases happening <;> trivial
  turn _ _ _ _ shut := shut.note trivial
  fired _ _ _ _ _ shut := shut.note trivial
  change _ place row _ _ past core placed listed begins meeting shut _ := by
    apply change_shut parted uncrossed placed.1 listed shut
    rw [begins] at meeting
    exact meeting.1
  fresh world := fresh_shut parted world
  begun world _ := begun_shut parted world

end Tree

/-- A root with a table in one of its states, which has two rows out of it. The action
of the first one fails. -/
def dragged : Tree sample where
  size := 2
  node
    | 0 =>
        { scalar 0 [1, 2]
            [{ in_state := nested 0, event := on 1, actions := [Name.fails],
               out_state := plain 1 },
             { in_state := nested 0, event := on 2, out_state := plain 2 }] with
          owner := 0, variant := Name.X, depth := 0 }
    | 1 =>
        { scalar 3 [4]
            [{ in_state := plain 3, event := on 0, out_state := plain 4 }] with
          owner := 0, variant := Name.state 0, depth := 1 }
    | _ => { scalar 5 [] [] with owner := 0, variant := Name.X, depth := 1 }
  size_pos := Nat.two_pos
  root_depth := by decide
  owner_lt := by decide
  depth_owner := by decide
  regions_pos := by decide
  variants := by decide
  in_composite := by decide
  out_composite := by decide

/-- The table moves, and then its root. -/
def dragged_along : Core sample :=
  final (dragged.process_event 5 ⟨Name.event 2, ()⟩)
    (final (dragged.process_event 5 ⟨Name.event 0, ()⟩)
      (dragged.new ()))

theorem dragged_along_reached : Reaches dragged.toTables dragged_along :=
  ((@Reaches.new sample dragged.toTables ()).process_event 5
    ⟨Name.event 0, ()⟩).process_event 5 ⟨Name.event 2, ()⟩

theorem dragged_parted : dragged.Parted where
  regions node inside orthogonal := by
    have flat : ∀ node < dragged.size, (dragged.node node).orthogonal = false := by
      decide
    rw [flat node inside] at orthogonal
    cases orthogonal
  terminal owner := by
    apply Option.eq_none_iff_forall_ne_some.mpr
    intro node owned
    obtain ⟨⟨pos, inside⟩, _, variant⟩ := dragged.child_spec owned
    have named : ∀ node < dragged.size, 0 < node →
        (dragged.node node).variant ≠ sample.X := by
      decide
    exact named node inside pos variant

theorem dragged_uncrossed : dragged.Uncrossed := by
  unfold Tree.Uncrossed
  decide

/-- The root fails, the table moves, and the root leaves. -/
def dragged_behind : Core sample :=
  final (dragged.process_event 5 ⟨Name.event 2, ()⟩)
    (final (dragged.process_event 5 ⟨Name.event 0, ()⟩)
      (final (dragged.process_event 5 ⟨Name.event 1, ()⟩)
        (dragged.new ())))

theorem dragged_behind_reached : Reaches dragged.toTables dragged_behind :=
  (((@Reaches.new sample dragged.toTables ()).process_event 5
    ⟨Name.event 1, ()⟩).process_event 5 ⟨Name.event 0, ()⟩).process_event 5
      ⟨Name.event 2, ()⟩

end SmlRs.Macros
