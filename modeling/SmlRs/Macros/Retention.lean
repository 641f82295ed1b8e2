/-
Module: SmlRs.Macros.Retention
Purpose: A table with history is entered again in the state it was left in, and every
  other one in its initial states.
Trusted boundary: none
Main exports: left_at, Restored, Remembers, retained_or_initial
-/
import SmlRs.Macros.Renewal

namespace SmlRs.Macros

open Lib

variable {E : Environment}

namespace Tables

variable (tree : Tables E)

/-- The state of which the exit sequence has completed last at a slot. -/
def left_at (place : Slot) : List (Happening E) → E.Ident
  | [] => tree.initial place
  | .exited other :: past =>
      if other = place then tree.replayed place past else left_at place past
  | _ :: past => left_at place past

/-- A slot that no row of its own enters is in the state it was left in if its table
retains its state, and in its initial state otherwise. -/
def Restored : Happening E → List (Happening E) → Prop
  | .entered place, past => arrives place past = false →
      tree.replayed place past =
        if tree.retains place.node then tree.left_at place past else tree.initial place
  | _, _ => True

/-- A table that retains its state is entered in the one it was left in. -/
def Recalled : Happening E → List (Happening E) → Prop
  | .entered place, past => arrives place past = false →
      tree.retains place.node = true → tree.replayed place past = tree.left_at place past
  | _, _ => True

end Tables

/-- The slots that retain their states are in those they were left in, where they have
been exited or never been entered. -/
structure Tree.Remembers (tree : Tree E) (core : Core E) : Prop where
  settled : ∀ place, tree.retains place.node = true →
    core.view.exit_skip place = true ∨ .entered place ∉ core.trace →
      tree.replayed place core.trace = tree.left_at place core.trace
  recalled : Throughout tree.Recalled core.trace

namespace Tree

variable {tree : Tree E} {core core' : Core E} {place : Slot} {node : Nat}

namespace Remembers

theorem still (remembers : tree.Remembers core)
    (tokens : core'.view.exit_skip = core.view.exit_skip)
    (trace : core'.trace = core.trace) : tree.Remembers core' where
  settled place retains := by
    rw [tokens, trace]
    exact remembers.settled place retains
  recalled := by
    rw [trace]
    exact remembers.recalled

theorem note {happening : Happening E} (remembers : tree.Remembers core)
    (beside : ∀ place, happening.occupies place = false)
    (unused : ∀ place, happening.uses place = false) :
    tree.Remembers (core.note happening) := by
  cases happening with
  | exited other => exact absurd (unused other) (by simp [Happening.uses])
  | entered other => exact absurd (beside other) (by simp [Happening.occupies])
  | replaced other held => exact absurd (beside other) (by simp [Happening.occupies])
  | reset other => exact absurd (beside other) (by simp [Happening.occupies])
  | _ =>
    refine ⟨fun place retains left => ?_, trivial, remembers.recalled⟩
    apply remembers.settled place retains
    exact left.imp_right fun never entered => never (List.mem_cons_of_mem _ entered)

theorem exited (remembers : tree.Remembers core) : tree.Remembers (core.exited place) where
  settled other retains left := by
    show tree.replayed other core.trace =
      if place = other then tree.replayed other core.trace
      else tree.left_at other core.trace
    by_cases here : place = other
    · rw [if_pos here]
    · rw [if_neg here]
      apply remembers.settled other retains
      apply left.imp
      · intro token
        exact (Function.update_of_ne (Ne.symm here) _ _).symm.trans token
      · intro never entered
        exact never (List.mem_cons_of_mem _ entered)
  recalled := ⟨trivial, remembers.recalled⟩

/-- A slot that is entered has its token not set. -/
theorem opened (remembers : tree.Remembers core)
    (settled : tree.retains place.node = true →
      tree.replayed place core.trace = tree.left_at place core.trace) :
    tree.Remembers (opened place core) where
  settled other retains left := by
    by_cases here : other = place
    · subst here
      rcases left with token | never
      · rw [opened_free] at token
        cases token
      · exact absurd List.mem_cons_self never
    · apply remembers.settled other retains
      apply left.imp
      · exact fun token => (Function.update_of_ne here _ _).symm.trans token
      · exact fun never entered => never (List.mem_cons_of_mem _ entered)
  recalled := ⟨fun _ => settled, remembers.recalled⟩

theorem resetted (remembers : tree.Remembers core)
    (returns : tree.retains place.node = false) :
    tree.Remembers (resetted tree.toTables place core) where
  settled other retains left := by
    have apart : place ≠ other := by
      rintro rfl
      rw [returns] at retains
      cases retains
    show (if place = other then tree.initial other else tree.replayed other core.trace) =
      tree.left_at other core.trace
    rw [if_neg apart]
    apply remembers.settled other retains
    exact left.imp_right fun never entered => never (List.mem_cons_of_mem _ entered)
  recalled := ⟨trivial, remembers.recalled⟩

theorem arrived {cause : Cause} {row : StateTransition E} {output : E.Data}
    (remembers : tree.Remembers core) :
    tree.Remembers (tree.arrived cause place row output core) := by
  have moved : tree.Remembers (((core.note (.replaced place
      (core.view.state place).ident)).set ((core.view.replace place
        ⟨row.out_state.ident, output⟩).skip place false)).note (.entered place)) :=
    { settled := fun other retains left => by
        by_cases here : other = place
        · subst here
          rcases left with token | never
          · have free : (Tree.opened other core).view.exit_skip other = false :=
              opened_free
            cases free.symm.trans token
          · exact absurd List.mem_cons_self never
        · show (if place = other then _ else tree.replayed other core.trace) =
            tree.left_at other core.trace
          rw [if_neg (Ne.symm here)]
          apply remembers.settled other retains
          apply left.imp
          · exact fun token => (Function.update_of_ne here _ _).symm.trans token
          · intro never entered
            exact never (List.mem_cons_of_mem _ (List.mem_cons_of_mem _ entered))
      recalled := by
        refine ⟨fun beside => ?_, trivial, remembers.recalled⟩
        exact absurd rfl (of_decide_eq_false beside) }
  unfold Tables.arrived
  dsimp only
  split
  · exact moved.note (fun _ => rfl) fun _ => rfl
  · exact moved

end Remembers

/-! ### Rows -/

section Row

variable {cause : Cause} {row : StateTransition E} {payload : Tables.Payload E}
  {output : E.Data}

/-- The slots under a table are in the states they were left in, if they retain them. -/
def Resting (tree : Tree E) (node : Nat) (core : Core E) : Prop :=
  ∀ place, tree.Placed place → tree.Within place.node node →
    tree.retains place.node = true →
      tree.replayed place core.trace = tree.left_at place core.trace

theorem resting_entering : tree.Entering
    (fun below => tree.Within below node ∧ below < tree.size) fun core core' =>
      tree.Resting node core ∧ tree.Remembers core →
        tree.Resting node core' ∧ tree.Remembers core' where
  frame := .carries
  world _ _ start := ⟨start.1, start.2.still rfl rfl⟩
  down := by
    intro owner state below among owned
    exact ⟨within_trans (within_child owned) among.1, (tree.child_spec owned).1.2⟩
  opens := by
    rintro place core among listed ⟨resting, remembers⟩
    have placed : tree.Placed place := ⟨among.2, (Tables.mem_slots.mp listed).2⟩
    exact ⟨resting, remembers.opened (resting place placed among.1)⟩
  resets := by
    rintro place core among returns ⟨resting, remembers⟩
    refine ⟨?_, remembers.resetted returns⟩
    intro other placed within retains
    have apart : place ≠ other := by
      rintro rfl
      rw [returns] at retains
      cases retains
    show (if place = other then tree.initial other else tree.replayed other core.trace) =
      tree.left_at other core.trace
    rw [if_neg apart]
    exact resting other placed within retains

/-- The entries of a row that has arrived keep the states that are retained. -/
theorem entries_remember (resting : ∀ node,
      tree.child place.node (core.view.state place).ident = some node →
        tree.Resting node core) (remembers : tree.Remembers core) :
    tree.Remembers (final (tree.entries place row output) core) := by
  have hooks : Within Acts (action_calls
      ((tree.node place.node).hooks .entry row.out_state.ident)
      (if row.target_has_data then [output] else [])) := acts_acting.action_calls _ _
  have still {core' : Core E} (acts : Acts core core') : tree.Remembers core' :=
    remembers.still acts.1 acts.2.2
  have walk (core' : Core E) (acts : Acts core core') : tree.Remembers (final (given
      (row.out_state.composite && !row.in_state.composite)
        (tree.composite_entry place)) core') := by
    unfold given
    split
    · -- The table nested in the state is the one that was left, if it ever was.
      cases owned : tree.child place.node (core'.view.state place).ident with
      | none =>
        have nothing : tree.Entering (fun _ => False) fun core core' =>
            tree.Remembers core → tree.Remembers core' :=
          { frame := .carries
            world := fun _ _ start => start.still rfl rfl
            down := fun none _ => none
            opens := fun _ _ none => none.elim
            resets := fun _ _ none => none.elim }
        apply nothing.enter_children_at tree.size _ (still acts)
        intro node here
        rw [owned] at here
        cases here
      | some node =>
        have inside := (tree.child_spec owned).1.2
        have walk := (@resting_entering _ tree node).enter_children_at tree.size
          (fun below here => by
            obtain rfl := Option.some.inj (owned.symm.trans here)
            exact ⟨.inl rfl, inside⟩)
        refine (walk ⟨?_, still acts⟩).2
        rw [acts.2.1] at owned
        have before := resting node owned
        unfold Resting at before ⊢
        rw [acts.2.2]
        exact before
    · exact still acts
  unfold Tables.entries final
  rw [bind_run]
  cases ran : action_calls ((tree.node place.node).hooks .entry row.out_state.ident)
      (if row.target_has_data then [output] else []) core with
  | error fault last => exact still (hooks.error ran)
  | ok value last => exact walk last (hooks.ok ran)

theorem arrive_remembers (parted : tree.Parted)
    (listed : row ∈ tree.rows place row.in_state.ident)
    (external : row.internal_transition = false) (departed : tree.Departed place core)
    (remembers : tree.Remembers core) :
    tree.Remembers (final (tree.arrive cause place row output) core) := by
  have declared := (Tables.mem_rows listed).1
  have moved : tree.Remembers (tree.arrived cause place row output core) :=
    remembers.arrived
  have resting (node : Nat) (owned : tree.child place.node ((tree.arrived cause place row
      output core).view.state place).ident = some node) :
      tree.Resting node (tree.arrived cause place row output core) := by
    rw [arrived_view, View.skip_state, View.replace_state, Function.update_self] at owned
    have unopened := @unopened_arrived _ _ _ place _ cause row output parted
      departed.shut declared listed external departed.left (live_placed departed.live)
      owned
    intro other placed within retains
    apply moved.settled other retains
    by_cases entered : .entered other ∈ (tree.arrived cause place row output core).trace
    · exact .inl (unopened other placed within entered)
    · exact .inr entered
  have run : final (tree.arrive cause place row output) core =
      final (marking (fun _ => .unentered place) (tree.entries place row output))
        (tree.arrived cause place row output core) := by
    unfold final
    rw [tree.arrive_run]
  rw [run]
  apply marking_final (@Frame.carries _ tree.Remembers) _ _ moved
  · exact entries_remember resting
  · exact fun _ _ start => start.note (fun _ => rfl) fun _ => rfl

theorem change_remembers (parted : tree.Parted) (inside : place.node < tree.size)
    (listed : row ∈ tree.rows place row.in_state.ident)
    (apart : row.internal_transition = false →
      ¬ (row.in_state.composite = true ∧ row.out_state.composite = true))
    (shut : tree.Shut core) (begins : row.internal_transition = false →
      (core.view.state place).ident = row.in_state.ident ∧ tree.Live core.view place)
    (running : Running cause place row core) (remembers : tree.Remembers core) :
    tree.Remembers (final (tree.change cause place row payload) core) := by
  have declared := (Tables.mem_rows listed).1
  have still {core core' : Core E} (acts : Acts core core')
      (remembers : tree.Remembers core) : tree.Remembers core' :=
    remembers.still acts.1 acts.2.2
  unfold Tables.change
  split
  · have items : Within Acts (do
        let _ ← run_items (row.callback_args payload.state_data payload.event_data)
          row.items : Effect E Unit) :=
      Within.seq acts_acting.frame (acts_acting.run_items _ _)
        fun _ => Within.returns acts_acting.frame ()
    exact still (items.final core) remembers
  · rename_i internal
    simp only [Bool.not_eq_true] at internal
    obtain ⟨source, live⟩ := begins internal
    have exiting : Exiting tree.toTables fun core core' =>
        tree.Remembers core → tree.Remembers core' :=
      { frame := .carries
        world := fun _ _ start => start.still rfl rfl
        exits := fun _ _ _ _ _ => Remembers.exited
        leaves := fun _ _ _ _ _ _ _ => Remembers.exited }
    have left := exiting.leave payload internal running remembers
    have departs := @leave_departed _ _ _ _ row payload inside declared (apart internal)
      shut source live
    unfold Tables.move final at left ⊢
    rw [bind_run]
    cases leaves : tree.leave place row payload core with
    | error fault mid =>
      rw [leaves] at left
      exact left
    | ok value mid =>
      rw [leaves] at left
      have departed := departs.ok rfl leaves
      dsimp only
      rw [bind_run]
      have acts : Within Acts (Tables.run_actions row payload) :=
        Within.seq acts_acting.frame (acts_acting.run_items _ _)
          fun _ => Within.returns acts_acting.frame _
      cases runs : Tables.run_actions row payload mid with
      | error fault last => exact still (acts.error runs) left
      | ok output last =>
        exact arrive_remembers parted listed internal (departed.acts (acts.ok runs))
          (still (acts.ok runs) left)

end Row

/-! ### Runs -/

theorem left_at_unused {record : List (Happening E)} (unused : Unused place record) :
    tree.left_at place record = tree.initial place := by
  induction record with
  | nil => rfl
  | cons happening past ih =>
    obtain ⟨here, before⟩ := List.forall_mem_cons.mp unused
    cases happening with
    | exited other =>
      rw [Tables.left_at, if_neg (of_decide_eq_false here)]
      exact ih before
    | _ => exact ih before

theorem begun_remembers (world : E.World) :
    tree.Remembers (final tree.initial_entries (tree.new world)) := by
  have same {place : Slot} {record : List (Happening E)} (unused : Unused place record) :
      tree.replayed place record = tree.left_at place record :=
    (replayed_unused unused).trans (left_at_unused unused).symm
  obtain ⟨unused, recalled⟩ := @begun_unused _ tree tree.Recalled
    (fun place _ unused _ _ => same (unused place)) (fun _ _ => trivial) world
  exact ⟨fun place _ _ => same (unused place), recalled⟩

theorem observing_remembers (parted : tree.Parted) (uncrossed : tree.Uncrossed) :
    Observing tree tree.FromLive fun core => tree.Shut core ∧ tree.Remembers core := by
  have shuts := observing_shut parted uncrossed
  exact
    { still := fun states tokens trace start =>
        ⟨shuts.still states tokens trace start.1, start.2.still tokens trace⟩
      noted := fun core happening around start => by
        refine ⟨shuts.noted core happening around start.1, start.2.note ?_ ?_⟩
        · cases happening <;> first | exact fun _ => rfl | cases around
        · cases happening <;> first | exact fun _ => rfl | cases around
      turn := fun serial event place core start =>
        ⟨shuts.turn serial event place core start.1,
          start.2.note (fun _ => rfl) fun _ => rfl⟩
      fired := fun cause place row index core start =>
        ⟨shuts.fired cause place row index core start.1,
          start.2.note (fun _ => rfl) fun _ => rfl⟩
      change := fun cause place row payload index past core placed listed begins meeting
          start meeting' => by
        refine ⟨shuts.change cause place row payload index past core placed listed begins
          meeting start.1 meeting', ?_⟩
        have declared := (Tables.mem_rows listed).1
        have running := running_of_begins begins
        rw [begins] at meeting
        exact change_remembers parted placed.1 listed
          (uncrossed place.node placed.1 row declared) start.1 meeting.1 running start.2
      fresh := fun world => by
        refine ⟨shuts.fresh world, ⟨fun _ _ _ => rfl, trivial⟩⟩
      begun := fun world meeting =>
        ⟨shuts.begun world meeting, begun_remembers world⟩ }

end Tree

/-- A root that goes to and fro between a state with a table and one without.  The
table keeps its state. -/
def recalling : Tree sample where
  size := 2
  node
    | 0 =>
        { scalar 0 [1]
            [{ in_state := nested 0, event := on 1, out_state := plain 1 },
             { in_state := plain 1, event := on 1, out_state := nested 0 }] with
          owner := 0, variant := Name.X, depth := 0 }
    | 1 =>
        { scalar 2 [3]
            [{ in_state := { plain 2 with history := true }, event := on 0,
               out_state := plain 3 }] with
          owner := 0, variant := Name.state 0, depth := 1 }
    | _ => { scalar 4 [] [] with owner := 0, variant := Name.X, depth := 1 }
  size_pos := Nat.two_pos
  root_depth := by decide
  owner_lt := by decide
  depth_owner := by decide
  regions_pos := by decide
  variants := by decide
  in_composite := by decide
  out_composite := by decide

theorem recalling_uncrossed : recalling.Uncrossed := by
  unfold Tree.Uncrossed
  decide

theorem recalling_parted : recalling.Parted where
  regions node inside orthogonal := by
    have flat : ∀ node < recalling.size, (recalling.node node).orthogonal = false := by
      decide
    rw [flat node inside] at orthogonal
    cases orthogonal
  terminal owner := by
    apply Option.eq_none_iff_forall_ne_some.mpr
    intro node owned
    obtain ⟨⟨pos, inside⟩, _, variant⟩ := recalling.child_spec owned
    have named : ∀ node < recalling.size, 0 < node →
        (recalling.node node).variant ≠ sample.X := by
      decide
    exact named node inside pos variant

/-- The table moves, and the root leaves it and enters it again. -/
def recalling_run : Core sample :=
  final (recalling.process_event 5 ⟨Name.event 1, ()⟩)
    (final (recalling.process_event 5 ⟨Name.event 1, ()⟩)
      (final (recalling.process_event 5 ⟨Name.event 0, ()⟩) (recalling.new ())))

theorem recalling_run_reached : Reaches recalling.toTables recalling_run :=
  (((@Reaches.new sample recalling.toTables ()).process_event 5
    ⟨Name.event 0, ()⟩).process_event 5 ⟨Name.event 1, ()⟩).process_event 5
      ⟨Name.event 1, ()⟩

end SmlRs.Macros
