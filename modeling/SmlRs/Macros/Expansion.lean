/-
Module: SmlRs.Macros.Expansion
Purpose: The runs in which it makes no difference whether the rows from `_` are
  written out.
Trusted boundary: none
Main exports: written_out_agrees
-/
import SmlRs.Lib.Agree
import SmlRs.Macros.Routing
import SmlRs.Macros.Wildcards

namespace SmlRs.Macros

open Lib

variable {E : Environment}

/-! ### Regime -/

/-- All states held are calm. -/
def Tables.Fine (blank : E.Ident) (tree : Tables E) (core : Core E) : Prop :=
  ∀ place, tree.Placed place →
    tree.calm blank place.node (core.view.state place).ident

def Tables.regime (blank : E.Ident) (tree : Tables E) :
    Regime (Core E) (Happening E) where
  record := Core.trace
  fine := tree.Fine blank
  clear := tree.Native blank

/-- The code of a tree does what the code of its written-out tables does. -/
abbrev Tables.Same (blank : E.Ident) (tree : Tables E) {α : Type}
    (code code' : Effect E α) : Prop :=
  Agrees (tree.regime blank) code code'

abbrev Tables.SameAt (blank : E.Ident) (tree : Tables E) {α : Type}
    (code code' : Effect E α) (core : Core E) : Prop :=
  AgreesAt (tree.regime blank) code code' core

/-! ### Steps of both -/

section Steps

variable {blank : E.Ident} {tree : Tables E} {core : Core E}

theorem note_same (happening : Happening E) :
    tree.Same blank (note happening) (note happening) :=
  Agrees.modifies (fun core => List.suffix_cons happening core.trace)
    fun _ fine _ => fine

/-- Code behind a happening, which its record then holds. -/
theorem noting_same {α : Type} {happening : Happening E}
    {next next' : Unit → Effect E α}
    (same : tree.SameAt blank (next ()) (next' ()) (core.note happening)) :
    tree.SameAt blank (note happening >>= next) (note happening >>= next')
      core := by
  apply same.of_eq (List.suffix_cons happening core.trace)
    (fun fine _ => fine)
  · rfl
  · rfl

theorem set_skip_same (place : Slot) (token : Bool) :
    tree.Same blank (set_skip place token) (set_skip place token) :=
  Agrees.modifies (fun _ => List.suffix_refl _) fun _ fine _ => fine

theorem Tables.Fine.replace (fine : tree.Fine blank core) {place : Slot}
    {value : StateValue E} (calm : tree.calm blank place.node value.ident) :
    tree.Fine blank (core.set (core.view.replace place value)) := by
  intro other placed
  by_cases here : other = place
  · subst here
    simpa using calm
  · have apart := fine other placed
    simpa [Function.update_of_ne here] using apart

theorem set_state_same {place : Slot} {value : StateValue E}
    (calm : tree.calm blank place.node value.ident) :
    tree.Same blank (set_state place value) (set_state place value) :=
  Agrees.modifies (fun _ => List.suffix_refl _)
    fun _ fine _ => fine.replace calm

theorem lift_same {α : Type} (fault : E.Data → Fault E)
    (result : Except E.Data α) :
    tree.Same blank (lift fault result) (lift fault result) := by
  cases result with
  | ok value => exact Agrees.returns value
  | error error => exact Agrees.throws (fault error)

theorem call_action_same (action : E.Ident) (args : List E.Data) :
    tree.Same blank (call_action action args) (call_action action args) := by
  apply Agrees.reads
  intro core
  apply AgreesAt.seq
  · exact .itself (List.suffix_refl _) fun fine _ => fine
  · exact fun _ => lift_same _ _

theorem action_calls_same (actions : List E.Ident) (args : List E.Data) :
    tree.Same blank (action_calls actions args) (action_calls actions args) := by
  apply Agrees.forM
  intro action _
  apply Agrees.seq (call_action_same action args)
  exact fun _ => Agrees.returns _

theorem run_items_same (args : List E.Data) (items : List (Item E)) :
    tree.Same blank (run_items args items) (run_items args items) := by
  apply Agrees.foldlM
  intro output item _
  cases item with
  | call action => exact call_action_same action args
  | eval guard action =>
    apply Agrees.reads
    intro core
    apply Agrees.seq (lift_same _ _)
    intro passed
    split
    · apply Agrees.seq (call_action_same action args)
      exact fun _ => Agrees.returns output
    · exact Agrees.returns output

theorem run_actions_same (row : StateTransition E) (payload : Tables.Payload E) :
    tree.Same blank (Tables.run_actions row payload)
      (Tables.run_actions row payload) := by
  apply Agrees.seq (run_items_same _ _)
  exact fun _ => Agrees.returns _

theorem given_same {condition : Bool} {code code' : Effect E Unit}
    (same : tree.Same blank code code') :
    tree.Same blank (given condition code) (given condition code') := by
  cases condition with
  | true => exact same
  | false => exact Agrees.returns ()

theorem marking_same {α : Type} {mark : Fault E → Happening E}
    {code code' : Effect E α} (same : tree.Same blank code code') :
    tree.Same blank (marking mark code) (marking mark code') := by
  apply same.marked
  · exact fun fault core => List.suffix_cons (mark fault) core.trace
  · exact fun _ _ fine => fine

theorem recording_same {record : Core E → Happening E}
    {code code' : Effect E Unit} (same : tree.Same blank code code') :
    tree.Same blank (recording record code) (recording record code') := by
  apply Agrees.seq
  · apply same.marked
    · exact fun _ core => List.suffix_cons (record core) core.trace
    · exact fun _ _ fine => fine
  · intro _
    apply Agrees.modifies
    · exact fun core => List.suffix_cons (record core) core.trace
    · exact fun _ fine _ => fine

theorem process_same (capacity : Nat) (event : Event E) :
    tree.Same blank (process capacity event) (process capacity event) := by
  apply Agrees.reads
  intro core
  split
  · exact .itself (List.suffix_refl _) fun fine _ => fine
  · exact Agrees.throws _ core

theorem defer_same (capacity : Nat) (event : Event E) :
    tree.Same blank (defer capacity event) (defer capacity event) := by
  apply Agrees.reads
  intro core
  split
  · exact .itself (List.suffix_refl _) fun fine _ => fine
  · exact Agrees.throws _ core

end Steps

/-! ### What the tables answer -/

namespace Tree

variable {blank : E.Ident} {tree : Tree E} (wild : tree.Wild blank)

include wild

theorem has_data_same {node : Nat} (inside : node < tree.size) {state : E.Ident}
    (calm : tree.calm blank node state) :
    ((tree.written_out blank).node node).has_data state =
      (tree.node node).has_data state :=
  Table.has_data_written_out (wild.tables node inside) calm.1

omit wild in
theorem hooks_same {node : Nat} {kind : EventKind} {state : E.Ident}
    (calm : tree.calm blank node state) (life : kind = .entry ∨ kind = .exit) :
    ((tree.written_out blank).node node).hooks kind state =
      (tree.node node).hooks kind state := by
  have clear : ∀ row ∈ (tree.node node).added blank state,
      decide (row.event.kind = kind) = false := by
    intro row among
    have apart := calm.2 row among
    rcases life with rfl | rfl
    · simpa using apart.2.1
    · simpa using apart.2.2
  have same : (((tree.written_out blank).node node).rows state).filter
      (fun row => row.event.kind = kind) =
        ((tree.node node).rows state).filter fun row => row.event.kind = kind :=
    Table.written_out_rows_filter calm.1 (fun _ _ => rfl) clear
  unfold Table.hooks
  rw [same]

omit wild in
theorem rows_filter_same {place : Slot} {state : E.Ident}
    {shared : StateTransition E → Bool} (named : state ≠ blank)
    (kept : ∀ row source, shared (row.written_at source) = shared row)
    (clear : ∀ row ∈ (tree.node place.node).added blank state,
      shared row = false) :
    ((tree.written_out blank).rows place state).filter shared =
      (tree.rows place state).filter shared := by
  unfold Tables.rows
  dsimp only
  show (if _ then ((tree.node place.node).toTable.written_out blank _).rows state
    else []).filter shared = _
  split
  · rw [Table.written_out_rows_filter named kept clear]
    rw [if_pos (by assumption)]
  · rw [if_neg (by assumption)]

omit wild in
theorem dispatch_arm_same {place : Slot} {state event : E.Ident}
    (named : state ≠ blank) (unopened : tree.unopened blank place state event) :
    (tree.written_out blank).dispatch_arm place state event =
      tree.dispatch_arm place state event := by
  have normal := @rows_filter_same _ _ tree place state
    (fun row => row.triggered .normal event) named (fun _ _ => rfl) unopened.1
  unfold Tables.dispatch_arm
  dsimp only
  rw [normal]
  split
  · rename_i none_normal
    rcases unopened.2 with some_normal | ⟨unexpected, rest⟩
    · have nothing : ((tree.rows place state).any fun row =>
          row.triggered .normal event) = false := by
        rw [List.any_eq_false]
        simpa using List.filter_eq_nil_iff.mp none_normal
      rw [nothing] at some_normal
      cases some_normal
    · have same : (((tree.written_out blank).rows place state).find? fun row =>
          row.triggered .unexpected event) =
          (tree.rows place state).find? fun row =>
            row.triggered .unexpected event := by
        rw [← List.head?_filter, ← List.head?_filter,
          rows_filter_same named (fun _ _ => rfl) unexpected]
      rw [same]
      split
      · rfl
      · rename_i none_unexpected
        rcases rest with some_unexpected | anonymous
        · obtain ⟨row, among, holds⟩ := List.any_eq_true.mp some_unexpected
          have fails := List.find?_eq_none.mp none_unexpected row among
          exact absurd holds fails
        · rw [← List.head?_filter,
            rows_filter_same named (fun _ _ => rfl) anonymous,
            List.head?_filter]
  · rfl

omit wild in
theorem origin_arm_same {place : Slot} {state event : E.Ident}
    (calm : tree.calm blank place.node state) :
    (tree.written_out blank).origin_arm place state event =
      tree.origin_arm place state event := by
  unfold Tables.origin_arm
  dsimp only
  rw [rows_filter_same calm.1 (fun _ _ => rfl)]
  · rfl
  · intro row among
    simp [StateTransition.triggered, (calm.2 row among).1]

omit wild in
theorem anonymous_arm_same {place : Slot} {state : E.Ident}
    (calm : tree.calm blank place.node state) :
    (tree.written_out blank).anonymous_arm place state =
      tree.anonymous_arm place state := by
  unfold Tables.anonymous_arm
  rw [rows_filter_same calm.1 (fun _ _ => rfl)]
  intro row among
  simp [StateTransition.anonymous, (calm.2 row among).1]

omit wild in
theorem exception_arm_same {place : Slot} {state : E.Ident}
    (named : state ≠ blank)
    (clear : ∀ row ∈ (tree.node place.node).added blank state,
      row.event.kind ≠ .exception) :
    (tree.written_out blank).exception_arm place state =
      tree.exception_arm place state := by
  unfold Tables.exception_arm
  dsimp only
  rw [rows_filter_same named (fun _ _ => rfl)]
  intro row among
  simpa using clear row among

theorem transitions_any_same {shared : StateTransition E → Bool}
    (kept : ∀ row source, shared (row.written_at source) = shared row) :
    (tree.written_out blank).transitions.any shared =
      tree.transitions.any shared := by
  have each (node : Nat) (inside : node < tree.size) :
      ((tree.written_out blank).node node).transitions.any shared =
        (tree.node node).transitions.any shared :=
    Table.any_written_out (wild.tables node inside) kept
  unfold Tables.transitions
  rw [List.any_flatMap, List.any_flatMap, Bool.eq_iff_iff, List.any_eq_true,
    List.any_eq_true]
  constructor
  · rintro ⟨node, among, holds⟩
    exact ⟨node, among, (each node (List.mem_range.mp among)).symm ▸ holds⟩
  · rintro ⟨node, among, holds⟩
    exact ⟨node, among, (each node (List.mem_range.mp among)) ▸ holds⟩

theorem has_deferred_events_same :
    (tree.written_out blank).has_deferred_events = tree.has_deferred_events :=
  transitions_any_same wild fun _ _ => rfl

theorem has_exception_handlers_same :
    (tree.written_out blank).has_exception_handlers =
      tree.has_exception_handlers :=
  transitions_any_same wild fun _ _ => rfl

theorem track_settle_sites_same :
    (tree.written_out blank).track_settle_sites = tree.track_settle_sites := by
  unfold Tables.track_settle_sites
  rw [has_exception_handlers_same wild]
  rfl

theorem node_terminal_same {node : Nat} (inside : node < tree.size)
    (view : View E) :
    (tree.written_out blank).node_terminal view node =
      tree.node_terminal view node := by
  unfold Tables.node_terminal
  rw [show ((tree.written_out blank).node node).has_state E.X =
      (tree.node node).has_state E.X from
    Table.has_state_written_out (wild.tables node inside) wild.terminal]
  rfl

omit wild in
/-- The rows added for wildcards own no other tables. -/
theorem child_written_out (owner : Nat) (state : E.Ident) :
    (tree.written_out blank).child owner state = tree.child owner state :=
  rfl

theorem eligible_same {place : Slot} (view : View E) (row : StateTransition E) :
    (tree.written_out blank).eligible view place row =
      tree.eligible view place row := by
  unfold Tables.eligible Tables.child_terminal
  rw [child_written_out]
  cases owned : tree.child place.node (view.state place).ident with
  | none => rfl
  | some node =>
    have inside := (tree.child_spec owned).1.2
    dsimp only
    rw [node_terminal_same wild inside]

/-! The shape of the tree does not depend on the rows. -/

section Shape

omit wild

variable {node ancestor : Nat} {place : Slot}

theorem active_same (view : View E) :
    (tree.written_out blank).active view node = tree.active view node := by
  have path (depth : Nat) (node : Nat) :
      (tree.written_out blank).holds_path view depth node =
        tree.holds_path view depth node := by
    induction depth generalizing node with
    | zero => rfl
    | succ depth ih =>
      unfold Tables.holds_path
      rw [ih]
      rfl
  exact path _ node

theorem tree_is_descendant_same :
    (tree.written_out blank).tree_is_descendant node ancestor =
      tree.tree_is_descendant node ancestor := by
  have climbs (depth : Nat) (node : Nat) :
      (tree.written_out blank).climbs ancestor depth node =
        tree.climbs ancestor depth node := by
    induction depth generalizing node with
    | zero => rfl
    | succ depth ih =>
      unfold Tables.climbs
      rw [ih]
      rfl
  exact climbs _ node

theorem tree_descendant_region_same :
    (tree.written_out blank).tree_descendant_region node ancestor =
      tree.tree_descendant_region node ancestor := by
  have climbs (depth : Nat) (node : Nat) :
      (tree.written_out blank).climbs_region ancestor depth node =
        tree.climbs_region ancestor depth node := by
    induction depth generalizing node with
    | zero => rfl
    | succ depth ih =>
      unfold Tables.climbs_region
      rw [ih]
      rfl
  exact climbs _ node

theorem root_blocks_same :
    (tree.written_out blank).root_blocks place = tree.root_blocks place := by
  unfold Tables.root_blocks
  simp only [tree_descendant_region_same]
  rfl

theorem descendant_handled_same (flags : Nat → Bool) :
    (tree.written_out blank).descendant_handled flags place =
      tree.descendant_handled flags place := by
  unfold Tables.descendant_handled
  simp only [tree_descendant_region_same]
  rfl

theorem region_path_same :
    (tree.written_out blank).region_path place = tree.region_path place := by
  unfold Tables.region_path
  simp only [tree_descendant_region_same]
  rfl

theorem subtree_same :
    (tree.written_out blank).subtree node = tree.subtree node := by
  unfold Tables.subtree
  simp only [tree_is_descendant_same]
  rfl

end Shape

end Tree

/-! ### Rows -/

section Rows

variable {blank : E.Ident} {tree : Tree E} (wild : tree.Wild blank)

include wild

theorem current_lifecycle_same {kind : EventKind}
    (life : kind = .entry ∨ kind = .exit) {place : Slot}
    (placed : tree.Placed place) :
    tree.Same blank (tree.current_lifecycle kind place)
      ((tree.written_out blank).current_lifecycle kind place) := by
  apply Agrees.reads
  intro core
  apply (action_calls_same _ _ core).congr
  intro fine _
  have calm := fine place placed
  rw [Tree.hooks_same calm life, Tree.has_data_same wild placed.1 calm]

omit wild in
theorem placed_of_child {place inner : Slot} {state : E.Ident} {node : Nat}
    (owned : tree.child place.node state = some node)
    (here : inner ∈ tree.slots node) : tree.Placed inner := by
  obtain ⟨rfl, region⟩ := Tables.mem_slots.mp here
  exact ⟨(tree.child_spec owned).1.2, region⟩

theorem exit_slot_same {nested nested' : Slot → Effect E Unit} {place : Slot}
    (placed : tree.Placed place)
    (inner : tree.Same blank (nested place) (nested' place)) :
    tree.Same blank (tree.exit_slot nested place)
      ((tree.written_out blank).exit_slot nested' place) := by
  apply Agrees.reads
  intro core
  split
  · exact Agrees.returns _ core
  apply Agrees.seq inner
  intro _
  apply Agrees.seq (current_lifecycle_same wild (.inr rfl) placed)
  intro _
  apply Agrees.seq (note_same _)
  exact fun _ => set_skip_same place true

theorem tree_exit_children_same (depth : Nat) (place : Slot) :
    tree.Same blank (tree.tree_exit_children depth place)
      ((tree.written_out blank).tree_exit_children depth place) := by
  induction depth generalizing place with
  | zero => exact Agrees.returns _
  | succ depth ih =>
    apply Agrees.reads
    intro core
    rw [Tree.child_written_out]
    cases owned : tree.child place.node (core.view.state place).ident with
    | none => exact Agrees.returns _ core
    | some node =>
      have each : tree.Same blank
          (tree.tree_exit_node (tree.tree_exit_children depth) node)
          ((tree.written_out blank).tree_exit_node
            ((tree.written_out blank).tree_exit_children depth) node) := by
        apply Agrees.forM
        intro inner here
        exact exit_slot_same wild (placed_of_child owned here) (ih inner)
      exact each core

theorem enter_slot_same {nested nested' : Slot → Effect E Unit} {place : Slot}
    (placed : tree.Placed place)
    (inner : tree.Same blank (nested place) (nested' place)) :
    tree.Same blank (tree.enter_slot nested place)
      ((tree.written_out blank).enter_slot nested' place) := by
  apply Agrees.seq (set_skip_same place false)
  intro _
  apply Agrees.seq (note_same _)
  intro _
  apply Agrees.seq (current_lifecycle_same wild (.inl rfl) placed)
  exact fun _ => inner

omit wild in
/-- A slot is set back to a state that is calm as long as the record is clear. -/
theorem reset_slot_same (place : Slot) :
    tree.Same blank (tree.reset_slot place)
      ((tree.written_out blank).reset_slot place) := by
  intro core
  apply noting_same
  apply AgreesAt.itself (List.suffix_refl _)
  intro fine clear
  have calm : tree.calm blank place.node (tree.initial place) :=
    clear (.reset place) List.mem_cons_self
  exact fine.replace calm

theorem tree_enter_children_same (depth : Nat) (place : Slot) :
    tree.Same blank (tree.tree_enter_children depth place)
      ((tree.written_out blank).tree_enter_children depth place) := by
  induction depth generalizing place with
  | zero => exact Agrees.returns _
  | succ depth ih =>
    apply Agrees.reads
    intro core
    rw [Tree.child_written_out]
    cases owned : tree.child place.node (core.view.state place).ident with
    | none => exact Agrees.returns _ core
    | some node =>
      have inside := (tree.child_spec owned).1.2
      have enters : tree.Same blank
          ((tree.slots node).forM
            (tree.enter_slot (tree.tree_enter_children depth)))
          ((tree.slots node).forM ((tree.written_out blank).enter_slot
            ((tree.written_out blank).tree_enter_children depth))) := by
        apply Agrees.forM
        intro inner here
        exact enter_slot_same wild (placed_of_child owned here) (ih inner)
      have history : ((tree.written_out blank).node node).history =
          (tree.node node).history :=
        Table.history_written_out (wild.tables node inside)
      have each : tree.Same blank
          (tree.tree_enter_node (tree.tree_enter_children depth) node)
          ((tree.written_out blank).tree_enter_node
            ((tree.written_out blank).tree_enter_children depth) node) := by
        unfold Tables.tree_enter_node
        dsimp only
        rw [history]
        show tree.Same blank (if (!(tree.node node).orthogonal && _) = true
          then _ else _) (if (!(tree.node node).orthogonal && _) = true
          then _ else _)
        split
        · exact enters
        · apply Agrees.seq
          · exact Agrees.forM fun inner _ => reset_slot_same inner
          · exact fun _ => enters
      exact each core

section Row

variable {cause : Cause} {place : Slot} {row : StateTransition E}
  {payload : Tables.Payload E}

theorem exits_same (calm : tree.calm blank place.node row.in_state.ident)
    (skipped : Bool) :
    tree.Same blank (tree.exits place row payload skipped)
      ((tree.written_out blank).exits place row payload skipped) := by
  unfold Tables.exits
  split
  · exact set_skip_same place false
  apply Agrees.seq
  · exact given_same (tree_exit_children_same wild _ _)
  intro _
  rw [Tree.hooks_same calm (.inr rfl)]
  apply Agrees.seq (action_calls_same _ _)
  exact fun _ => note_same _

theorem entries_same (calm : tree.calm blank place.node row.out_state.ident)
    (output : E.Data) :
    tree.Same blank (tree.entries place row output)
      ((tree.written_out blank).entries place row output) := by
  unfold Tables.entries
  rw [Tree.hooks_same calm (.inl rfl)]
  apply Agrees.seq (action_calls_same _ _)
  exact fun _ => given_same (tree_enter_children_same wild _ _)

theorem move_same (leaves : tree.calm blank place.node row.in_state.ident)
    (enters : tree.calm blank place.node row.out_state.ident) :
    tree.Same blank (tree.move cause place row payload)
      ((tree.written_out blank).move cause place row payload) := by
  apply Agrees.seq
  · apply Agrees.reads
    intro core
    apply Agrees.seq (exits_same wild leaves _)
    exact fun _ => set_skip_same place true
  intro _
  apply Agrees.seq (run_actions_same row payload)
  intro output
  apply Agrees.reads
  intro core
  apply Agrees.seq (note_same _)
  intro _
  apply Agrees.seq (set_state_same enters)
  intro _
  apply Agrees.seq (set_skip_same place false)
  intro _
  apply Agrees.seq (note_same _)
  intro _
  apply Agrees.seq (given_same (note_same _))
  exact fun _ => marking_same (entries_same wild enters output)

theorem change_same (leaves : tree.calm blank place.node row.in_state.ident)
    (enters : row.internal_transition = false →
      tree.calm blank place.node row.out_state.ident) :
    tree.Same blank (tree.change cause place row payload)
      ((tree.written_out blank).change cause place row payload) := by
  unfold Tables.change
  split
  · apply Agrees.seq (run_items_same _ _)
    exact fun _ => Agrees.returns _
  · rename_i external
    exact move_same wild leaves (enters (by simpa using external))

end Row

/-! ### What rows dispatch and queue -/

section Queues

variable {calls calls' : Calls E} (fuel : calls'.fuel = calls.fuel)
  (nested : ∀ event, tree.Same blank (calls.process_event event)
    (calls'.process_event event))

omit wild in
theorem defer_code_same (row : StateTransition E) (payload : Tables.Payload E) :
    tree.Same blank (tree.defer_code row payload)
      ((tree.written_out blank).defer_code row payload) := by
  unfold Tables.defer_code
  split
  · apply Agrees.seq (defer_same _ _)
    exact fun _ => note_same _
  · exact Agrees.returns _

omit wild in
theorem put_same (event : Event E) :
    tree.Same blank (tree.put event) ((tree.written_out blank).put event) := by
  apply Agrees.seq (process_same _ _)
  exact fun _ => note_same _

include nested

omit wild in
theorem process_code_same (row : StateTransition E) :
    tree.Same blank (tree.process_code calls row)
      ((tree.written_out blank).process_code calls' row) := by
  unfold Tables.process_code
  show tree.Same blank _ (if tree.async_queue = true then _ else _)
  split
  · apply Agrees.reads
    intro before
    apply recording_same
    exact Agrees.forM fun event _ => put_same event
  apply Agrees.seq
  · apply Agrees.foldlM
    intro order event _
    apply Agrees.reads
    intro core
    apply Agrees.seq (note_same _)
    intro _
    apply Agrees.seq (marking_same (nested event))
    exact fun _ => Agrees.returns _
  · exact fun _ => note_same _

omit wild in
theorem retry_same (rounds : Nat) :
    tree.Same blank (Tables.retry calls rounds)
      (Tables.retry calls' rounds) := by
  induction rounds with
  | zero => exact Agrees.throws _
  | succ rounds ih =>
    apply Agrees.reads
    intro core
    split
    · exact Agrees.returns _ core
    · rename_i event rest _
      apply AgreesAt.seq
      · exact .itself (List.suffix_refl _) fun fine _ => fine
      intro _
      apply Agrees.seq (note_same _)
      intro _
      apply Agrees.seq (nested event).attempt
      intro outcome
      split
      · exact ih
      · exact ih
      · exact ih
      · exact Agrees.throws _

include fuel

theorem queue_work_same (row : StateTransition E) :
    tree.Same blank (tree.queue_work calls row)
      ((tree.written_out blank).queue_work calls' row) := by
  apply Agrees.seq (process_code_same nested row)
  intro _
  unfold Tables.drain_deferred
  rw [Tree.has_deferred_events_same wild]
  split
  · show tree.Same blank _ (if tree.async_queue = true then _ else _)
    split
    · apply Agrees.reads
      intro before
      apply recording_same
      apply Agrees.forM
      intro event _
      apply Agrees.seq
      · exact Agrees.modifies (fun _ => List.suffix_refl _) fun _ fine _ => fine
      intro _
      apply Agrees.seq (note_same _)
      exact fun _ => put_same event
    · rw [fuel]
      exact retry_same nested calls.fuel
  · exact Agrees.returns _

theorem run_row_same {cause : Cause} {place : Slot} {row : StateTransition E}
    {payload : Tables.Payload E}
    (leaves : tree.calm blank place.node row.in_state.ident)
    (enters : row.internal_transition = false →
      tree.calm blank place.node row.out_state.ident) :
    tree.Same blank (tree.run_row calls cause place row payload)
      ((tree.written_out blank).run_row calls' cause place row payload) := by
  apply Agrees.seq (marking_same (change_same wild leaves enters))
  intro _
  apply Agrees.seq (defer_code_same row payload)
  exact fun _ => marking_same (queue_work_same wild fuel nested row)

end Queues

/-! ### Turns -/

section Turns

variable {calls calls' : Calls E} (fuel : calls'.fuel = calls.fuel)
  (nested : ∀ event, tree.Same blank (calls.process_event event)
    (calls'.process_event event))

include fuel nested

/-- A row that is run leads from a calm state to a calm one as long as the record
is clear. -/
theorem row_body_same (cause : Cause) (place : Slot) (row : StateTransition E)
    (payload : Tables.Payload E) (index : Nat) :
    tree.Same blank (tree.row_body calls cause place row payload index)
      ((tree.written_out blank).row_body calls' cause place row payload
        index) := by
  apply Agrees.reads
  intro core
  apply noting_same
  have grows (event : Event E) : Within Longer (calls.process_event event) :=
    .of_final fun core => (nested event core).grows
  apply AgreesAt.supposing
  · exact (longer_blind.run_row grows cause place row payload).final _
  · intro _ clear
    have native : tree.Native blank (.fired cause place row index core.view) :=
      clear _ List.mem_cons_self
    exact run_row_same wild fuel nested native.1 native.2 _

theorem branch_same (cause : Cause) (place : Slot) (matched event_data : E.Data)
    (index : Nat) (row : StateTransition E) (handled : Bool) :
    tree.Same blank
      (tree.branch calls cause place matched event_data index row handled)
      ((tree.written_out blank).branch calls' cause place matched event_data
        index row handled) := by
  have checked (payload : Tables.Payload E) : tree.Same blank
      (tree.transition_code calls cause place row payload index handled)
      ((tree.written_out blank).transition_code calls' cause place row payload
        index handled) := by
    apply Agrees.reads
    intro core
    apply Agrees.seq (marking_same (lift_same _ _))
    intro runs
    split
    · apply Agrees.seq (row_body_same wild fuel nested _ _ _ _ _)
      exact fun _ => Agrees.returns true
    · exact Agrees.returns handled
  apply Agrees.reads
  intro core
  show tree.SameAt blank _ (if tree.rebinds place row = true then _ else _) core
  dsimp only
  split
  · split
    · exact checked _ core
    · exact Agrees.returns handled core
  · exact checked _ core

theorem run_arm_same (cause : Cause) (place : Slot) (matched event_data : E.Data)
    (arm : List (StateTransition E × Nat)) (handled : Bool) :
    tree.Same blank
      (tree.run_arm calls cause place matched event_data arm handled)
      ((tree.written_out blank).run_arm calls' cause place matched event_data
        arm handled) :=
  Agrees.foldlM (fun _ _ _ => branch_same wild fuel nested _ _ _ _ _ _ _) handled

theorem dispatch_code_same (serial : Nat) {place : Slot}
    (placed : tree.Placed place) (event : Event E) :
    tree.Same blank (tree.dispatch_code calls serial place event)
      ((tree.written_out blank).dispatch_code calls' serial place event) := by
  apply Agrees.reads
  intro core
  apply noting_same
  apply AgreesAt.seq
  · apply (run_arm_same wild fuel nested _ place _ event.data
      (tree.dispatch_arm place (core.view.state place).ident event.ident)
      false _).congr
    intro fine clear
    have named : (core.view.state place).ident ≠ blank := (fine place placed).1
    have native : tree.Native blank (.turn serial event place core.view) :=
      clear _ List.mem_cons_self
    rw [Tree.dispatch_arm_same named native]
  · intro handled
    apply Agrees.seq (given_same (note_same _))
    exact fun _ => Agrees.returns handled

theorem run_completions_same (place : Slot) (event_data : E.Data)
    (arm : List (StateTransition E)) :
    tree.Same blank (tree.run_completions calls place event_data arm)
      ((tree.written_out blank).run_completions calls' place event_data arm) := by
  have eligible (view : View E) :
      (tree.written_out blank).eligible view place = tree.eligible view place :=
    funext fun row => Tree.eligible_same wild view row
  apply Agrees.reads
  intro core
  show tree.SameAt blank _ (if (!(tree.node place.node).orthogonal &&
    !arm.all ((tree.written_out blank).eligible core.view place)) = true
      then _ else _) core
  rw [eligible]
  dsimp only
  split
  · exact Agrees.returns false core
  refine Agrees.foldlM (fun handled row _ => ?_) false core
  apply Agrees.reads
  intro core'
  show tree.SameAt blank _ (if ((tree.node place.node).orthogonal &&
    !(tree.written_out blank).eligible core'.view place row) = true
      then _ else _) core'
  rw [eligible]
  split
  · exact Agrees.returns handled core'
  · exact branch_same wild fuel nested _ _ _ _ _ _ _ core'

theorem completion_code_same {place : Slot} (placed : tree.Placed place)
    (origin : Option (Event E)) :
    tree.Same blank (tree.completion_code calls place origin)
      ((tree.written_out blank).completion_code calls' place origin) := by
  apply Agrees.seq
  · cases origin with
    | none => exact Agrees.returns false
    | some event =>
      apply Agrees.reads
      intro core
      apply (run_completions_same wild fuel nested place event.data _ core).congr
      intro fine _
      rw [Tree.origin_arm_same (fine place placed)]
  · intro handled
    split
    · exact Agrees.returns true
    apply Agrees.reads
    intro core
    apply (run_completions_same wild fuel nested place E.default _ core).congr
    intro fine _
    rw [Tree.anonymous_arm_same (fine place placed)]

theorem exception_code_same (serial : Nat) {place : Slot}
    (placed : tree.Placed place) (error : E.Data) :
    tree.Same blank (tree.exception_code calls serial place error)
      ((tree.written_out blank).exception_code calls' serial place error) := by
  have rows (matched : E.Data) (arm : List (StateTransition E)) :
      tree.Same blank
        (arm.foldlM (tree.exception_row calls serial place matched error) none)
        (arm.foldlM ((tree.written_out blank).exception_row calls' serial place
          matched error) none) := by
    apply Agrees.foldlM
    intro outcome row _
    cases outcome with
    | some moved => exact Agrees.returns (some moved)
    | none =>
      apply Agrees.seq (branch_same wild fuel nested _ _ _ _ _ _ _)
      exact fun handled => Agrees.returns _
  apply Agrees.reads
  intro core
  apply noting_same
  apply (rows _ (tree.exception_arm place (core.view.state place).ident) _).congr
  intro fine clear
  have named : (core.view.state place).ident ≠ blank := (fine place placed).1
  have native : tree.Native blank (.recovering serial error place core.view) :=
    clear _ List.mem_cons_self
  rw [Tree.exception_arm_same named native]

end Turns

/-! ### Dispatches, completions and recoveries -/

section Walks

variable {calls calls' : Calls E} (fuel : calls'.fuel = calls.fuel)
  (nested : ∀ event, tree.Same blank (calls.process_event event)
    (calls'.process_event event))

omit wild in
theorem placed_of_slots {node : Nat} (inside : node < tree.size) {place : Slot}
    (here : place ∈ tree.slots node) : tree.Placed place := by
  obtain ⟨rfl, region⟩ := Tables.mem_slots.mp here
  exact ⟨inside, region⟩

omit wild in
theorem inside_of_walk {node : Nat} (among : node ∈ tree.blocks ++ [0]) :
    node < tree.size := by
  rcases List.mem_append.mp among with block | root
  · exact (Tables.mem_blocks.mp block).2
  · rw [List.mem_singleton.mp root]
    exact tree.size_pos

include fuel nested

theorem child_block_same (serial : Nat) (event : Event E) (flags : Tables.Flags)
    {node : Nat} (inside : node < tree.size) :
    tree.Same blank (tree.child_block calls serial event flags node)
      ((tree.written_out blank).child_block calls' serial event flags node) := by
  unfold Tables.child_block
  show tree.Same blank _ (if (tree.node node).orthogonal = true then _ else _)
  split
  · apply Agrees.reads
    intro core
    rw [Tree.active_same]
    split
    · apply AgreesAt.seq
      · refine Agrees.foldlM (fun before place here => ?_) false core
        unfold Tables.region_block
        dsimp only
        rw [Tree.descendant_handled_same]
        apply Agrees.seq
        · unfold Tables.bubbles
          split
          · exact Agrees.returns false
          · exact dispatch_code_same wild fuel nested serial
              (placed_of_slots inside here) event
        · exact fun _ => Agrees.returns _
      · exact fun _ => Agrees.returns _
    · exact Agrees.returns _ core
  · apply Agrees.seq
    · apply Agrees.reads
      intro core
      rw [Tree.active_same]
      split
      · have placed : tree.Placed ⟨node, 0⟩ :=
          ⟨inside, tree.regions_pos node inside⟩
        exact dispatch_code_same wild fuel nested serial placed event core
      · exact Agrees.returns false core
    · exact fun _ => Agrees.returns _

theorem dispatch_blocks_same (serial : Nat) (event : Event E) {nodes : List Nat}
    (inside : ∀ node ∈ nodes, node < tree.size) (flags : Tables.Flags) :
    tree.Same blank (tree.dispatch_blocks calls serial event nodes flags)
      ((tree.written_out blank).dispatch_blocks calls' serial event nodes
        flags) :=
  Agrees.foldlM (fun flags node among =>
    child_block_same wild fuel nested serial event flags (inside node among))
    flags

theorem parent_dispatch_same (serial : Nat) (event : Event E) :
    tree.Same blank (tree.parent_dispatch calls serial event)
      ((tree.written_out blank).parent_dispatch calls' serial event) := by
  have blocks (node : Nat) (among : node ∈ tree.blocks) : node < tree.size :=
    (Tables.mem_blocks.mp among).2
  unfold Tables.parent_dispatch
  show tree.Same blank _ (if (tree.node 0).orthogonal = true then _ else _)
  split
  · apply Agrees.foldlM
    intro before place here
    unfold Tables.root_region
    rw [Tree.root_blocks_same]
    apply Agrees.seq
    · apply dispatch_blocks_same wild fuel nested
      exact fun node among => blocks node (List.mem_of_mem_filter among)
    intro flags
    apply Agrees.seq
    · unfold Tables.bubbles
      split
      · exact Agrees.returns false
      · exact dispatch_code_same wild fuel nested serial
          (placed_of_slots tree.size_pos here) event
    · exact fun _ => Agrees.returns _
  · apply Agrees.seq (dispatch_blocks_same wild fuel nested serial event blocks _)
    intro flags
    split
    · exact Agrees.returns true
    · have placed : tree.Placed ⟨0, 0⟩ :=
        ⟨tree.size_pos, tree.regions_pos 0 tree.size_pos⟩
      exact dispatch_code_same wild fuel nested serial placed event

theorem completion_step_same (origin : Option (Event E))
    (settled : Nat → Bool) :
    Agrees (tree.regime blank) (tree.completion_step calls origin settled)
      ((tree.written_out blank).completion_step calls' origin settled) := by
  have site {place : Slot} (placed : tree.Placed place) :
      Agrees (tree.regime blank)
        (tree.completion_site calls origin settled place)
        ((tree.written_out blank).completion_site calls' origin settled
          place) := by
    have is_settled : (tree.written_out blank).is_settled settled place =
        tree.is_settled settled place := by
      unfold Tables.is_settled
      rw [Tree.track_settle_sites_same wild]
      rfl
    unfold Tables.completion_site
    rw [is_settled]
    split
    · exact Agrees.returns false
    · apply (completion_code_same wild fuel nested placed origin).tagged
      · exact fun core => List.suffix_cons _ core.trace
      · exact fun _ fine => fine
  apply Agrees.foldlM
  intro handled node among
  apply Agrees.reads
  intro core
  rw [Tree.active_same]
  split
  · exact Agrees.returns handled core
  · refine Agrees.foldlM (fun progressed place here => ?_) false core
    apply Agrees.seq (site (placed_of_slots (inside_of_walk among) here))
    exact fun _ => Agrees.returns _

theorem node_recovery_same (serial : Nat) (error : E.Data) (faulting : Nat)
    (walk : Tables.Recovery) {node : Nat} (inside : node < tree.size) :
    tree.Same blank (tree.node_recovery calls serial error faulting walk node)
      ((tree.written_out blank).node_recovery calls' serial error faulting walk
        node) := by
  have codes {place : Slot} (placed : tree.Placed place) :=
    exception_code_same wild fuel nested serial placed error
  have first (placed : tree.Placed ⟨node, 0⟩) := codes placed
  apply Agrees.reads
  intro core
  rw [Tree.active_same]
  show tree.SameAt blank _ (if (!tree.active core.view node) = true then _
    else if (tree.node node).orthogonal = true then _ else _) core
  split
  · exact Agrees.returns walk core
  split
  · refine Agrees.foldlM (fun walk place here => ?_) walk core
    apply Agrees.seq (codes (placed_of_slots inside here))
    intro outcome
    cases outcome with
    | none => exact Agrees.returns walk
    | some moved =>
      dsimp only
      rw [Tree.track_settle_sites_same wild, Tree.region_path_same]
      exact Agrees.returns _
  have placed : tree.Placed ⟨node, 0⟩ := ⟨inside, tree.regions_pos node inside⟩
  split
  · rename_i root
    subst root
    unfold Tables.root_recovery
    split
    · exact Agrees.returns walk core
    · refine Agrees.seq (codes placed) (fun outcome => ?_) core
      cases outcome with
      | none => exact Agrees.returns walk
      | some moved =>
        dsimp only
        rw [Tree.track_settle_sites_same wild]
        exact Agrees.returns _
  · unfold Tables.scalar_recovery
    split
    · exact Agrees.returns walk core
    · refine Agrees.seq (codes placed) (fun outcome => ?_) core
      cases outcome with
      | none => exact Agrees.returns walk
      | some moved =>
        dsimp only
        rw [Tree.track_settle_sites_same wild, Tree.subtree_same]
        exact Agrees.returns _

theorem recover_walk_same (error : E.Data) (faulting : Nat) :
    tree.Same blank (tree.recover_walk calls error faulting)
      ((tree.written_out blank).recover_walk calls' error faulting) := by
  apply Agrees.reads
  intro core
  apply AgreesAt.seq
  · exact .itself (List.suffix_refl _) fun fine _ => fine
  intro _
  apply Agrees.seq (note_same _)
  intro _
  apply Agrees.foldlM
  intro walk node among
  exact node_recovery_same wild fuel nested _ error faulting walk
    (inside_of_walk among)

theorem stabilize_loop_same (rounds : Nat) (origin : Option (Event E))
    (settled : Nat → Bool) :
    tree.Same blank (tree.stabilize_loop calls rounds origin settled)
      ((tree.written_out blank).stabilize_loop calls' rounds origin
        settled) := by
  induction rounds generalizing origin settled with
  | zero => exact Agrees.throws _
  | succ rounds ih =>
    apply Agrees.seq
      (completion_step_same wild fuel nested origin settled).attempt
    intro outcome
    split
    · exact Agrees.returns origin
    · exact ih origin settled
    · rename_i site fault
      rw [Tree.has_exception_handlers_same wild]
      split
      · exact Agrees.throws fault
      split
      · exact Agrees.throws fault
      apply Agrees.seq (recover_walk_same wild fuel nested _ site)
      intro walk
      split
      · exact Agrees.throws fault
      · rename_i moved _
        apply Agrees.seq (note_same _)
        intro _
        dsimp only
        rw [Tree.track_settle_sites_same wild]
        split
        · exact ih _ _
        · split
          · exact ih _ _
          · exact Agrees.returns _

theorem stabilize_same (origin : Option (Event E)) :
    tree.Same blank (tree.stabilize calls origin)
      ((tree.written_out blank).stabilize calls' origin) := by
  unfold Tables.stabilize
  rw [fuel]
  apply Agrees.seq (stabilize_loop_same wild fuel nested _ origin _)
  exact fun _ => Agrees.returns _

theorem run_event_same (event : Event E) :
    tree.Same blank (tree.run_event calls event)
      ((tree.written_out blank).run_event calls' event) := by
  have outcomes (outcome : Except (Fault E) Bool) :
      tree.Same blank (tree.dispatch_outcome calls outcome)
        ((tree.written_out blank).dispatch_outcome calls' outcome) := by
    unfold Tables.dispatch_outcome
    rw [Tree.has_exception_handlers_same wild]
    split
    · exact Agrees.returns _
    split
    · exact Agrees.throws _
    split
    · exact Agrees.throws _
    apply Agrees.seq (recover_walk_same wild fuel nested _ _)
    intro walk
    split
    · exact Agrees.throws _
    · exact Agrees.returns _
  apply Agrees.reads
  intro core
  split
  · exact Agrees.throws _ core
  apply AgreesAt.seq
  · refine Agrees.reads (fun core => ?_) core
    apply AgreesAt.seq
    · exact .itself (List.suffix_refl _) fun fine _ => fine
    intro _
    apply Agrees.seq (parent_dispatch_same wild fuel nested _ event).attempt
    exact outcomes
  · intro outcome
    dsimp only
    split
    · exact stabilize_same wild fuel nested _
    · exact Agrees.throws _

theorem run_pending_same (rounds : Nat) :
    tree.Same blank (tree.run_pending calls rounds)
      ((tree.written_out blank).run_pending calls' rounds) := by
  induction rounds with
  | zero => exact Agrees.throws _
  | succ rounds ih =>
    apply Agrees.reads
    intro core
    split
    · exact Agrees.returns _ core
    apply AgreesAt.seq
    · exact .itself (List.suffix_refl _) fun fine _ => fine
    intro _
    apply Agrees.seq (note_same _)
    intro _
    apply Agrees.seq (marking_same (run_event_same wild fuel nested _))
    exact fun _ => ih

end Walks

theorem process_event_same (fuel : Nat) (event : Event E) :
    tree.Same blank (tree.process_event fuel event)
      ((tree.written_out blank).process_event fuel event) := by
  induction fuel generalizing event with
  | zero => exact Agrees.throws _
  | succ fuel ih =>
    unfold Tables.process_event
    show tree.Same blank _ (if tree.async_queue = true then _ else _)
    split
    · apply Agrees.seq (process_same _ event)
      exact fun _ => run_pending_same wild (by rfl) ih fuel
    · exact run_event_same wild (by rfl) ih event

/-! ### Runs -/

section Runs

variable (start : ∀ place, tree.Placed place →
  tree.calm blank place.node (tree.initial place))

include start

theorem initial_entry_same {place : Slot} (placed : tree.Placed place) :
    tree.Same blank (tree.initial_entry place)
      ((tree.written_out blank).initial_entry place) := by
  have calm := start place placed
  apply Agrees.reads
  intro core
  apply AgreesAt.seq (note_same _ core)
  intro _
  show tree.Same blank _ (action_calls
    (((tree.written_out blank).node place.node).hooks .entry
      (tree.initial place)) (if ((tree.written_out blank).node place.node).has_data
        (tree.initial place) = true then _ else _))
  rw [Tree.hooks_same calm (.inl rfl), Tree.has_data_same wild placed.1 calm]
  exact action_calls_same _ _

theorem initial_entries_same :
    tree.Same blank tree.initial_entries
      (tree.written_out blank).initial_entries := by
  have root : tree.Placed ⟨0, 0⟩ :=
    ⟨tree.size_pos, tree.regions_pos 0 tree.size_pos⟩
  unfold Tables.initial_entries
  show tree.Same blank _ (if tree.size = 1 then _
    else if tree.single_child = true then _
    else if (tree.node 0).orthogonal = true then _ else _)
  split
  · apply Agrees.forM
    exact fun place here =>
      initial_entry_same wild start (placed_of_slots tree.size_pos here)
  split
  · exact initial_entry_same wild start root
  split
  · apply Agrees.forM
    intro place here
    exact enter_slot_same wild (placed_of_slots tree.size_pos here)
      (tree_enter_children_same wild _ place)
  · apply Agrees.seq (initial_entry_same wild start root)
    exact fun _ => tree_enter_children_same wild _ _

theorem initialize_unlocked_same (fuel : Nat) :
    tree.Same blank (tree.initialize_unlocked fuel)
      ((tree.written_out blank).initialize_unlocked fuel) := by
  apply Agrees.seq (initial_entries_same wild start)
  exact fun _ => stabilize_same wild (by rfl) (process_event_same wild fuel) none

/-- As long as no row from `_` is touched that is written out, the machine of the
written-out tables is brought into the same cores. -/
theorem Reaches.written_out {core : Core E} (reached : Reaches tree.toTables core)
    (clear : ∀ happening ∈ core.trace, tree.Native blank happening) :
    Reaches (tree.written_out blank).toTables core ∧ tree.Fine blank core := by
  induction reached with
  | new world => exact ⟨.new world, start⟩
  | initialize_unlocked world fuel =>
    obtain ⟨same, fine⟩ := (initialize_unlocked_same wild start fuel
      (tree.new world)).same start clear
    refine ⟨?_, fine⟩
    have ends : final (tree.initialize_unlocked fuel) (tree.new world) =
        final ((tree.written_out blank).initialize_unlocked fuel)
          (tree.new world) := by
      unfold final
      rw [same]
    rw [ends]
    exact .initialize_unlocked world fuel
  | @process_event core _ fuel event ih =>
    have agrees := process_event_same wild fuel event core
    have ended : (tree.regime blank).Clear
        (final (tree.process_event fuel event) core) := clear
    obtain ⟨before, start⟩ := ih (ended.of_suffix agrees.grows)
    obtain ⟨same, fine⟩ := agrees.same start clear
    refine ⟨?_, fine⟩
    have ends : final (tree.process_event fuel event) core =
        final ((tree.written_out blank).process_event fuel event) core := by
      unfold final
      rw [same]
    rw [ends]
    exact before.process_event fuel event
  | context _ world ih =>
    obtain ⟨before, fine⟩ := ih clear
    exact ⟨before.context world, fine⟩

end Runs

end Rows

/-- In every run in which no written-out row is touched, the machine in which the
rows from `_` are written out does the same as the one that drops them: the same
calls bring it into the same core, and there every call ends alike. -/
theorem written_out_agrees {blank : E.Ident} {tree : Tree E}
    (wild : tree.Wild blank)
    (start : ∀ place, tree.Placed place →
      tree.calm blank place.node (tree.initial place)) {core : Core E}
    (reached : Reaches tree.toTables core)
    (clear : ∀ happening ∈ core.trace, tree.Native blank happening) :
    Reaches (tree.written_out blank).toTables core ∧
      ∀ fuel event,
        (∀ happening ∈ (final (tree.process_event fuel event) core).trace,
          tree.Native blank happening) →
        (tree.written_out blank).process_event fuel event core =
          tree.process_event fuel event core := by
  obtain ⟨brought, fine⟩ := reached.written_out wild start clear
  refine ⟨brought, fun fuel event native => ?_⟩
  exact ((process_event_same wild fuel event core).same fine native).1

/-! ### A row that is dropped -/

/-- The name of `_` in a sample table. -/
def underscore : sample.Ident := Name.state 9

/-- Two regions, and a row from `_` that leaves both as they are. -/
def ticking : Tree sample where
  size := 1
  node _ :=
    { owner := 0, variant := Name.X, depth := 0
      transitions :=
        [{ in_state := plain 0, event := on 0, out_state := plain 1 },
         { in_state := plain 2, event := on 0, out_state := plain 2,
           internal_transition := true },
         { in_state := { ident := underscore }, event := on 1,
           actions := [Name.acts], out_state := { ident := underscore },
           internal_transition := true }]
      regions := [⟨Name.state 0, [Name.state 0, .state 1]⟩,
        ⟨Name.state 2, [Name.state 2]⟩] }
  size_pos := Nat.one_pos
  root_depth := by decide
  owner_lt := by decide
  depth_owner := by decide
  regions_pos := by decide
  variants := by decide
  in_composite := by decide
  out_composite := by decide

/-- The written-out row handles an event that the machine has no row for. -/
theorem ticking_drops :
    Reaches ticking.toTables (ticking.new ()) ∧
      (∃ core, ticking.process_event 5 ⟨Name.event 1, ()⟩ (ticking.new ()) =
        .error .invalid_event core) ∧
      ∃ core, (ticking.written_out underscore).process_event 5
        ⟨Name.event 1, ()⟩ (ticking.new ()) = .ok () core :=
  ⟨@Reaches.new sample ticking.toTables (), ⟨_, rfl⟩, ⟨_, rfl⟩⟩

theorem ticking_wild : ticking.Wild underscore where
  terminal := nofun
  tables node inside :=
    { bare := by
        intro row among wild
        simp only [ticking, List.mem_cons, List.not_mem_nil, or_false] at among
        rcases among with rfl | rfl | rfl
        · cases wild
        · cases wild
        · exact ⟨rfl, fun _ => rfl⟩
      written := by
        intro row among wild
        simp only [ticking, List.mem_cons, List.not_mem_nil, or_false] at among
        rcases among with rfl | rfl | rfl
        · cases wild
        · cases wild
        · obtain rfl : node = 0 := Nat.lt_one_iff.mp inside
          refine ⟨Name.state 0, (Table.mem_added_rows _ _).mpr ?_⟩
          exact ⟨_, [], (List.append_assoc [_] [_] _).symm, rfl, by decide⟩ }

theorem ticking_start (place : Slot) (placed : ticking.Placed place) :
    ticking.calm underscore place.node (ticking.initial place) := by
  obtain ⟨node, region⟩ := place
  obtain rfl : node = 0 := Nat.lt_one_iff.mp placed.1
  have two_regions : region < 2 := placed.2
  match region, two_regions with
  | 0, _ => exact by decide
  | 1, _ => exact by decide

/-- The first region moves, and the row from `_` is not looked at. -/
def ticking_run : Core sample :=
  final (ticking.process_event 5 ⟨Name.event 0, ()⟩) (ticking.new ())

theorem written_out_agrees_ticking :
    Reaches (ticking.written_out underscore).toTables ticking_run ∧
      ∀ fuel event,
        (∀ happening ∈ (final (ticking.process_event fuel event)
            ticking_run).trace, ticking.Native underscore happening) →
        (ticking.written_out underscore).process_event fuel event ticking_run =
          ticking.process_event fuel event ticking_run :=
  written_out_agrees ticking_wild ticking_start
    ((@Reaches.new sample ticking.toTables ()).process_event 5
      ⟨Name.event 0, ()⟩) (by decide +kernel)

end SmlRs.Macros
