/-
Module: SmlRs.Macros.Steps
Purpose: The elementary steps that machines of every kind are made of, and the
  rule that lifts what they keep to whole runs.
Trusted boundary: none
Main exports: fired_at, Exiting, Units, arrived, Steps, Steps.keeps,
  Machine.invariant
-/
import SmlRs.Macros.Conduct

namespace SmlRs.Macros

open Lib

variable {E : Environment}

/-! ### The row that runs at a slot -/

/-- The row that begins at a slot, with its cause and what it finds. -/
def Happening.row_at (place : Slot) :
    Happening E → Option (Cause × StateTransition E × View E)
  | .fired cause other row _ before =>
      if other = place then some (cause, row, before) else none
  | _ => none

/-- The row that has begun last at a slot. -/
def fired_at (place : Slot) (record : List (Happening E)) :
    Option (Cause × StateTransition E × View E) :=
  record.findSome? fun happening => happening.row_at place

/-- A row has begun at a slot, and the states are still those that it found. -/
def Running (cause : Cause) (place : Slot) (row : StateTransition E)
    (core : Core E) : Prop :=
  ∃ before, fired_at place core.trace = some (cause, row, before) ∧
    core.view.state = before.state

theorem running_of_fired (cause : Cause) (place : Slot) (row : StateTransition E)
    (index : Nat) (core : Core E) :
    Running cause place row
      (core.note (.fired cause place row index core.view)) := by
  refine ⟨core.view, ?_, rfl⟩
  unfold fired_at
  rw [Core.note_trace, List.findSome?_cons]
  simp [Happening.row_at]

/-- A row on its way, with the states of all slots. -/
def Underway (core core' : Core E) : Prop :=
  core'.view.state = core.view.state ∧
    ∀ place, fired_at place core'.trace = fired_at place core.trace

theorem underway_frame : Frame (Underway (E := E)) where
  refl _ := ⟨rfl, fun _ => rfl⟩
  trans first second := ⟨second.1.trans first.1,
    fun place => (second.2 place).trans (first.2 place)⟩

theorem Running.underway {cause : Cause} {place : Slot} {row : StateTransition E}
    {core core' : Core E} (begun : Running cause place row core)
    (underway : Underway core core') : Running cause place row core' := by
  obtain ⟨before, running, same⟩ := begun
  exact ⟨before, (underway.2 place).trans running, underway.1.trans same⟩

/-! ### Exits -/

/-- Notes the end of the exit sequence of a slot. -/
def Core.exited (core : Core E) (place : Slot) : Core E :=
  (core.note (.exited place)).set (core.view.skip place true)

/-- The parts of the exits of a row: actions, and the end of the exit sequence of
a slot whose token is not set. A row exits its own slot, behind what is nested in
it. -/
structure Exiting (tree : Tables E) (rel : Core E → Core E → Prop) : Prop extends
    Acting rel where
  exits : ∀ place core, 0 < place.node → place.node < tree.size →
    core.view.exit_skip place = false → rel core (core.exited place)
  leaves : ∀ cause place row core, row.internal_transition = false →
    Running cause place row core → core.view.exit_skip place = false →
      rel core (core.exited place)

/-- The tokens of the slots of a table and of the tables above it stay as they
are. -/
def Spares (top : Nat) (core core' : Core E) : Prop :=
  ∀ place, place.node ≤ top →
    core'.view.exit_skip place = core.view.exit_skip place

theorem spares_acting (top : Nat) : Acting (Spares (E := E) top) where
  frame :=
    { refl := fun _ _ _ => rfl
      trans := fun first second place above =>
        (second place above).trans (first place above) }
  world _ _ _ _ := rfl

theorem underway_acting : Acting (Underway (E := E)) where
  frame := underway_frame
  world _ _ := ⟨rfl, fun _ => rfl⟩

/-- The exit sequence of a slot ends behind what comes before. -/
theorem exit_after {rel kept : Core E → Core E → Prop} (frame : Frame rel)
    {place : Slot} {before : Effect E Unit} (moves : Within rel before)
    (keeps : Within kept before) {core : Core E}
    (exits : ∀ core', kept core core' → rel core' (core'.exited place)) :
    rel core (final (do
      before
      note (.exited place)
      set_skip place true : Effect E Unit) core) := by
  unfold final
  rw [bind_run]
  cases ran : before core with
  | error fault core' => exact moves.error ran
  | ok value core' =>
    exact frame.trans (moves.ok ran) (exits core' (keeps.ok ran))

/-- The exits of a row are left out where its token is set, and they leave it
set. -/
theorem unless_skipped {rel : Core E → Core E → Prop} (frame : Frame rel)
    {place : Slot} {exits : Bool → Effect E Unit}
    (skipped : exits true = set_skip place false) {core : Core E}
    (walk : core.view.exit_skip place = false →
      rel core (final (do exits false; set_skip place true : Effect E Unit) core)) :
    rel core (final (do
      let core ← get
      exits (core.view.exit_skip place)
      set_skip place true : Effect E Unit) core) := by
  unfold final at walk ⊢
  rw [get_bind_run]
  cases token : core.view.exit_skip place with
  | true =>
    have same : (core.view.skip place false).skip place true = core.view := by
      unfold View.skip
      simp [← token]
    rw [skipped]
    show rel core (core.set ((core.view.skip place false).skip place true))
    rw [same]
    exact frame.refl core
  | false => exact walk token

theorem tree_exit_spares (tree : Tree E) (depth : Nat) (place : Slot) :
    Within (Spares place.node) (tree.tree_exit_children depth place) := by
  induction depth generalizing place with
  | zero => exact Within.returns (spares_acting _).frame _
  | succ depth ih =>
    have acting := spares_acting (E := E) place.node
    apply Within.seq acting.frame (Within.gets acting.frame)
    intro core
    split
    · exact Within.returns acting.frame _
    rename_i node owned
    have below := tree.owner_lt_child owned
    apply Within.forM acting.frame
    intro inner among
    obtain ⟨here, _⟩ := Tables.mem_slots.mp among
    apply Within.seq acting.frame (Within.gets acting.frame)
    intro core
    split
    · exact Within.returns acting.frame _
    apply Within.seq acting.frame
    · apply (ih inner).mono
      exact fun _ _ spares other above => spares other (by omega)
    intro _
    apply Within.seq acting.frame
    · exact Within.seq acting.frame (Within.gets acting.frame)
        fun _ => acting.action_calls _ _
    intro _ core other above
    apply Function.update_of_ne
    rintro rfl
    omega

namespace Exiting

variable {tree : Tree E} {rel : Core E → Core E → Prop}
  (exiting : Exiting tree.toTables rel)

include exiting

theorem current_lifecycle (kind : EventKind) (place : Slot) :
    Within rel (tree.current_lifecycle kind place) :=
  Within.seq exiting.frame (Within.gets exiting.frame)
    fun _ => exiting.action_calls _ _

theorem tree_exit_children (depth : Nat) (place : Slot) :
    Within rel (tree.tree_exit_children depth place) := by
  induction depth generalizing place with
  | zero => exact Within.returns exiting.frame _
  | succ depth ih =>
    apply Within.seq exiting.frame (Within.gets exiting.frame)
    intro core
    split
    · exact Within.returns exiting.frame _
    rename_i node owned
    obtain ⟨⟨positive, inside⟩, _⟩ := tree.child_spec owned
    apply Within.forM exiting.frame
    intro inner among
    obtain ⟨rfl, _⟩ := Tables.mem_slots.mp among
    apply Within.of_final
    intro core
    unfold Tables.exit_slot final
    rw [get_bind_run]
    cases token : core.view.exit_skip inner with
    | true => exact exiting.frame.refl core
    | false =>
      have acting := spares_acting (E := E) inner.node
      have walk : rel core (final (do
          (do
            tree.tree_exit_children depth inner
            tree.current_lifecycle .exit inner)
          note (.exited inner)
          set_skip inner true : Effect E Unit) core) := by
        apply exit_after exiting.frame
        · exact Within.seq exiting.frame (ih inner)
            fun _ => exiting.current_lifecycle _ _
        · apply Within.seq acting.frame (tree_exit_spares tree depth inner)
          exact fun _ => Within.seq acting.frame (Within.gets acting.frame)
            fun _ => acting.action_calls _ _
        · intro core' spares
          apply exiting.exits inner core' positive inside
          rw [spares inner (Nat.le_refl _)]
          exact token
      rw [bind_assoc] at walk
      exact walk

end Exiting

theorem underway_exiting (tree : Tables E) : Exiting tree Underway where
  toActing := underway_acting
  exits _ _ _ _ _ := ⟨rfl, fun _ => rfl⟩
  leaves _ _ _ _ _ _ _ := ⟨rfl, fun _ => rfl⟩

theorem Exiting.leave {tree : Tree E} {rel : Core E → Core E → Prop}
    (exiting : Exiting tree.toTables rel) {cause : Cause} {place : Slot}
    {row : StateTransition E} (payload : Tables.Payload E)
    (external : row.internal_transition = false) {core : Core E}
    (begun : Running cause place row core) :
    rel core (final (tree.leave place row payload) core) := by
  have acting := spares_acting (E := E) place.node
  apply unless_skipped exiting.frame rfl
  intro token
  unfold Tables.exits
  simp only [Bool.false_eq_true, if_false, bind_assoc]
  rw [← bind_assoc]
  have moving {kept : Core E → Core E → Prop} (acting : Acting kept)
      (walks : Within kept (tree.composite_exit place)) :
      Within kept (do
        given (row.in_state.composite && !row.out_state.composite)
          (tree.composite_exit place)
        action_calls ((tree.node place.node).hooks .exit row.in_state.ident)
          (if row.state_arg then [payload.state_data] else [])
          : Effect E Unit) :=
    Within.seq acting.frame (given_within acting.frame walks)
      fun _ => acting.action_calls _ _
  apply exit_after exiting.frame
  · exact moving exiting.toActing (exiting.tree_exit_children _ _)
  · apply Within.both
    · exact moving acting (tree_exit_spares tree _ place)
    · exact moving underway_acting
        ((underway_exiting tree.toTables).tree_exit_children _ _)
  · intro core' kept
    apply exiting.leaves cause place row core' external (begun.underway kept.2)
    rw [kept.1 place (Nat.le_refl _)]
    exact token

theorem Exiting.flat_leave {flat : Flat E} {rel : Core E → Core E → Prop}
    (exiting : Exiting flat.tables rel) {cause : Cause}
    {row : StateTransition E} (external : row.internal_transition = false)
    {core : Core E} (begun : Running cause Flat.slot row core) :
    rel core (final (flat.leave row) core) := by
  have acting := spares_acting (E := E) 0
  apply unless_skipped exiting.frame rfl
  intro token
  unfold Flat.exits
  simp only [Bool.false_eq_true, if_false, bind_assoc]
  rw [← bind_assoc]
  have moving {kept : Core E → Core E → Prop} (acting : Acting kept) :
      Within kept (do
        call_hook (flat.on_exit row.in_state.ident)
        action_calls (flat.lifecycle .exit row.in_state.ident) []
          : Effect E Unit) :=
    Within.seq acting.frame (call_hook_within acting _)
      fun _ => acting.action_calls _ _
  apply exit_after exiting.frame (moving exiting.toActing)
    (Within.both (moving acting) (moving underway_acting))
  intro core' kept
  apply exiting.leaves cause Flat.slot row core' external (begun.underway kept.2)
  rw [kept.1 Flat.slot (Nat.le_refl _)]
  exact token

/-- The parts of the state changes of rows: the exits, the entry of a slot and the
reset of a slot. -/
structure Units (tree : Tables E) (rel : Core E → Core E → Prop) : Prop extends
    Exiting tree rel where
  enters : ∀ place core, rel core
    ((core.set (core.view.skip place false)).note (.entered place))
  resets : ∀ place, Within rel (tree.reset_slot place)

namespace Units

variable {tree : Tree E} {rel : Core E → Core E → Prop}
  (units : Units tree.toTables rel)

include units

theorem enter_slot {nested : Slot → Effect E Unit}
    (inside : ∀ inner, Within rel (nested inner)) (place : Slot) :
    Within rel (tree.enter_slot nested place) := by
  intro core
  have inner : Within rel (do
      tree.current_lifecycle .entry place
      nested place : Effect E Unit) :=
    Within.seq units.frame (units.toExiting.current_lifecycle _ _)
      fun _ => inside place
  exact inner.after units.frame (units.enters place core)

theorem tree_enter_children (depth : Nat) (place : Slot) :
    Within rel (tree.tree_enter_children depth place) := by
  induction depth generalizing place with
  | zero => exact Within.returns units.frame _
  | succ depth ih =>
    apply Within.seq units.frame (Within.gets units.frame)
    intro core
    split
    · exact Within.returns units.frame _
    unfold Tables.tree_enter_node
    dsimp only
    have enters (node : Nat) : Within rel ((tree.slots node).forM
        (tree.enter_slot (tree.tree_enter_children depth))) :=
      Within.forM units.frame fun inner _ => units.enter_slot ih inner
    split
    · exact enters _
    apply Within.seq units.frame
    · exact Within.forM units.frame fun inner _ => units.resets inner
    · exact fun _ => enters _

end Units

/-- The core behind the state change of an external row, before its entries. -/
def Tables.arrived (tree : Tables E) (cause : Cause) (place : Slot)
    (row : StateTransition E) (output : E.Data) (core : Core E) : Core E :=
  let old := (core.view.state place).ident
  let moved := (((core.note (.replaced place old)).set
    ((core.view.replace place ⟨row.out_state.ident, output⟩).skip place
      false)).note (.entered place))
  if tree.reports cause place then
    moved.note (.log_state_change old row.out_state.ident)
  else moved

theorem Tables.arrive_run (tree : Tables E) (cause : Cause) (place : Slot)
    (row : StateTransition E) (output : E.Data) (core : Core E) :
    tree.arrive cause place row output core =
      marking (fun _ => .unentered place) (tree.entries place row output)
        (tree.arrived cause place row output core) := by
  unfold Tables.arrive Tables.arrived
  rw [get_bind_run]
  cases tree.reports cause place <;> rfl

/-- The elementary steps of a machine stay within a relation.  A row arrives at its
target where it has left its slot; where `matched`, it begins only in a slot that
holds its source, and elsewhere it is one of the rows of its slot. -/
structure Steps (matched : Prop) (tree : Tables E)
    (rel : Core E → Core E → Prop) : Prop extends Quiet rel, Units tree rel where
  arrives : ∀ cause place row output core,
    place.node < tree.size → row ∈ (tree.node place.node).transitions →
    (¬ matched → row ∈ tree.rows place row.in_state.ident) →
    row.internal_transition = false → Running cause place row core →
    core.view.exit_skip place = true →
      rel core (tree.arrived cause place row output core)
  unentered : ∀ place core, rel core (core.note (.unentered place))
  started : ∀ place core, core.view.exit_skip place = false →
    rel core (core.note (.entered place))
  fired : ∀ cause place row index core,
    (matched → (core.view.state place).ident = row.in_state.ident) →
      rel core (core.note (.fired cause place row index core.view))
  turn : ∀ serial event place core, rel core
    (core.note (.turn serial event place core.view))
  handled : ∀ serial place core, rel core (core.note (.handled serial place))
  recovering : ∀ serial error place core, rel core
    (core.note (.recovering serial error place core.view))
  counted : ∀ core, rel core { core with serial := core.serial + 1 }

/-- The actions of a row leave its token and the record alone. -/
def Acts (core core' : Core E) : Prop :=
  core'.view.exit_skip = core.view.exit_skip ∧
    core'.view.state = core.view.state ∧ core'.trace = core.trace

theorem acts_acting : Acting (Acts (E := E)) where
  frame :=
    { refl := fun _ => ⟨rfl, rfl, rfl⟩
      trans := fun first second => ⟨second.1.trans first.1,
        second.2.1.trans first.2.1, second.2.2.trans first.2.2⟩ }
  world _ _ := ⟨rfl, rfl, rfl⟩

theorem Acts.underway {core core' : Core E} (acts : Acts core core') :
    Underway core core' :=
  ⟨acts.2.1, fun place => congrArg (fired_at place) acts.2.2⟩

/-- The exits of a row end with its token set. -/
theorem token_of_ok {place : Slot} {exits : Effect E Unit} {core core' : Core E}
    (run : (do exits; set_skip place true : Effect E Unit) core =
      .ok () core') : core'.view.exit_skip place = true := by
  rw [bind_run] at run
  cases ends : exits core with
  | error fault mid =>
    rw [ends] at run
    cases run
  | ok value mid =>
    rw [ends] at run
    cases run
    exact Function.update_self _ _ _

/-- A part whose failure is noted. -/
theorem marking_final {α : Type} {rel : Core E → Core E → Prop}
    (frame : Frame rel) {mark : Fault E → Happening E} {effect : Effect E α}
    {core : Core E} (moved : rel core (final effect core))
    (marks : ∀ fault core, rel core (core.note (mark fault))) :
    rel core (final (marking mark effect) core) := by
  unfold marking final marked at *
  cases run : effect core with
  | ok value core' =>
    rw [run] at moved
    exact moved
  | error fault core' =>
    rw [run] at moved
    exact frame.trans moved (marks fault core')

/-- An external row: its exits, its actions and its arrival. -/
theorem leave_and_arrive {rel : Core E → Core E → Prop} (acting : Acting rel)
    {place : Slot} {row : StateTransition E} {payload : Tables.Payload E}
    {leave : Effect E Unit} {arrive : E.Data → Effect E Unit} {core : Core E}
    (leaves : rel core (final leave core))
    (underway : Underway core (final leave core))
    (token : ∀ core', leave core = .ok () core' →
      core'.view.exit_skip place = true)
    (arrives : ∀ output core', Underway core core' →
      core'.view.exit_skip place = true →
        rel core' (final (arrive output) core')) :
    rel core (final (do
      leave
      let output ← Tables.run_actions row payload
      arrive output : Effect E Unit) core) := by
  unfold final at leaves underway ⊢
  rw [bind_run]
  cases left : leave core with
  | error fault mid =>
    rw [left] at leaves
    exact leaves
  | ok value mid =>
    rw [left] at leaves underway
    have skips := token mid left
    dsimp only
    rw [bind_run]
    cases acts : Tables.run_actions row payload mid with
    | error fault last =>
      exact acting.frame.trans leaves
        ((acting.run_actions row payload).error acts)
    | ok output last =>
      have acted := (acts_acting.run_actions row payload).ok acts
      have further := acting.frame.trans leaves
        ((acting.run_actions row payload).ok acts)
      refine acting.frame.trans further (arrives output last ?_ ?_)
      · exact underway_frame.trans underway acted.underway
      · rw [acted.1]
        exact skips

/-- A row of a machine whose events stay within the relation. -/
theorem Quiet.perform {tree : Tables E} {rel : Core E → Core E → Prop}
    (quiet : Quiet rel) {calls : Calls E}
    (nested : ∀ event, Within rel (calls.process_event event)) {cause : Cause}
    {row : StateTransition E} {payload : Tables.Payload E}
    {change : Effect E Unit} {core : Core E}
    (changes : rel core (final change core)) :
    rel core (final (tree.perform calls cause row payload change) core) := by
  have marked := marking_final quiet.frame changes
    fun _ core => quiet.outer core (.raised cause) trivial
  exact Within.final_seq quiet.frame marked fun _ =>
    follow_ups_within quiet nested cause row payload

/-- A part that leaves all tokens as they are while none is set. -/
def WhileFree (rel : Core E → Core E → Prop) (core core' : Core E) : Prop :=
  (∀ place, core.view.exit_skip place = false) →
    rel core core' ∧ core'.view.exit_skip = core.view.exit_skip

theorem while_free_frame {rel : Core E → Core E → Prop} (frame : Frame rel) :
    Frame (WhileFree rel) where
  refl core _ := ⟨frame.refl core, rfl⟩
  trans := by
    intro core mid core' first second free
    obtain ⟨moved, same⟩ := first free
    obtain ⟨further, same'⟩ := second fun place => by
      rw [same]
      exact free place
    exact ⟨frame.trans moved further, same'.trans same⟩

namespace Steps

variable {matched : Prop} {tree : Tree E} {rel : Core E → Core E → Prop}
  (steps : Steps matched tree.toTables rel)

include steps

/-- The entries behind a state change. -/
theorem entries (place : Slot) (row : StateTransition E) (output : E.Data) :
    Within rel (marking (fun _ => .unentered place)
      (tree.entries place row output)) := by
  apply marking_within steps.frame
  · apply Within.seq steps.frame (steps.action_calls _ _)
    intro _
    exact given_within steps.frame (steps.toUnits.tree_enter_children _ _)
  · exact fun _ core => steps.unentered place core

variable {cause : Cause} {place : Slot} {row : StateTransition E}
  {payload : Tables.Payload E}

theorem arrive (inside : place.node < tree.size)
    (listed : row ∈ tree.rows place row.in_state.ident)
    (external : row.internal_transition = false) (output : E.Data)
    {core : Core E} (begun : Running cause place row core)
    (left : core.view.exit_skip place = true) :
    rel core (final (tree.arrive cause place row output) core) := by
  have moved := steps.arrives cause place row output core inside
    (Tables.mem_rows listed).1 (fun _ => listed) external begun left
  unfold final
  rw [tree.arrive_run]
  exact steps.frame.trans moved
    ((steps.entries place row output).final _)

/-- An external row that has just begun. -/
theorem move (inside : place.node < tree.size)
    (listed : row ∈ tree.rows place row.in_state.ident)
    (external : row.internal_transition = false) {core : Core E}
    (begun : Running cause place row core) :
    rel core (final (tree.move cause place row payload) core) := by
  apply leave_and_arrive steps.toActing
  · exact steps.toExiting.leave payload external begun
  · exact (underway_exiting tree.toTables).leave payload external begun
  · exact fun core' => token_of_ok
  · exact fun output core' underway token =>
      steps.arrive inside listed external output (begun.underway underway) token

theorem change (inside : place.node < tree.size)
    (listed : row ∈ tree.rows place row.in_state.ident) {core : Core E}
    (begun : Running cause place row core) :
    rel core (final (tree.change cause place row payload) core) := by
  unfold Tables.change
  split
  · have items := Within.seq steps.frame (steps.run_items
      (row.callback_args payload.state_data payload.event_data) row.items)
        fun _ => Within.returns steps.frame ()
    exact items.final core
  · rename_i external
    exact steps.move inside listed (by simpa using external) begun

theorem bodies (unmatched : ¬ matched) {calls : Calls E}
    (nested : ∀ event, Within rel (calls.process_event event)) (cause : Cause)
    {place : Slot} (inside : place.node < tree.size) :
    Bodies tree.toTables rel calls cause place := by
  intro row listed payload index
  apply Within.of_final
  intro core
  have fired := steps.fired cause place row index core
    fun known => absurd known unmatched
  have begun := running_of_fired cause place row index core
  have changes := @change _ _ _ _ steps cause place row payload inside listed _
    begun
  have performed : rel _ (final (tree.perform calls cause row payload
      (tree.change cause place row payload)) _) :=
    steps.toQuiet.perform nested changes
  exact steps.frame.trans fired performed

theorem initial_entry (place : Slot) :
    Within (WhileFree rel) (tree.initial_entry place) := by
  intro core
  have entry := (steps.action_calls ((tree.node place.node).hooks .entry
    (tree.initial place))
      (if (tree.node place.node).has_data (tree.initial place) then
        [(core.view.state place).data] else [])).both
    (acts_acting.action_calls _ _)
  have ran := entry (core.note (.entered place))
  have run : tree.initial_entry place core = action_calls
      ((tree.node place.node).hooks .entry (tree.initial place))
      (if (tree.node place.node).has_data (tree.initial place) then
        [(core.view.state place).data] else []) (core.note (.entered place)) := rfl
  rw [run]
  have moved {core' : Core E} (moves : rel (core.note (.entered place)) core' ∧
      Acts (core.note (.entered place)) core') : WhileFree rel core core' := by
    intro free
    exact ⟨steps.frame.trans (steps.started place core (free place)) moves.1,
      moves.2.1⟩
  revert ran
  cases action_calls _ _ (core.note (.entered place)) with
  | ok value core' => exact moved
  | error fault core' => exact moved

theorem initial_entries {core : Core E}
    (free : ∀ place, core.view.exit_skip place = false) :
    rel core (final tree.initial_entries core) := by
  have entry := steps.toUnits.tree_enter_children tree.size
  have alone (place : Slot) := ((steps.initial_entry place).final core free).1
  unfold Tables.initial_entries
  split
  · have each : Within (WhileFree rel)
        ((tree.slots 0).forM tree.initial_entry) :=
      Within.forM (while_free_frame steps.frame)
        fun place _ => steps.initial_entry place
    exact (each.final core free).1
  split
  · exact alone _
  split
  · have each : Within rel
        ((tree.slots 0).forM (tree.enter_slot tree.composite_entry)) :=
      Within.forM steps.frame
        fun place _ => steps.toUnits.enter_slot entry place
    exact each.final core
  · exact Within.final_seq steps.frame (alone _) fun _ => entry _

end Steps

/-- A machine of several tables keeps what its steps keep. -/
theorem Steps.keeps {matched : Prop} {tree : Tree E}
    {rel : Core E → Core E → Prop} (steps : Steps matched tree.toTables rel)
    (unmatched : ¬ matched) : Keeps tree.toTables rel where
  toQuiet := steps.toQuiet
  completion calls nested place placed :=
    steps.bodies unmatched nested .completion placed.1
  recover calls nested error site := by
    apply recover_walk_within steps.frame
    · intro core
      exact steps.frame.trans (steps.counted core)
        (steps.outer { core with serial := core.serial + 1 } _ trivial)
    · intro serial place error placed
      apply exception_code_within steps.toQuiet
      · exact steps.bodies unmatched nested (.exception serial) placed.1
      · exact fun core => steps.recovering serial error place core
  dispatch calls nested event core := by
    apply dispatch_within steps.toQuiet steps.counted steps.turn steps.handled
    exact fun serial place placed =>
      steps.bodies unmatched nested (.event serial) placed.1

theorem Tables.arrived_trace (tree : Tables E) (cause : Cause) (place : Slot)
    (row : StateTransition E) (output : E.Data) (core : Core E) :
    ∃ added, (tree.arrived cause place row output core).trace =
      added ++ .entered place ::
        .replaced place (core.view.state place).ident :: core.trace := by
  unfold Tables.arrived
  dsimp only
  split
  · exact ⟨[_], rfl⟩
  · exact ⟨[], rfl⟩

theorem longer_note (core : Core E) (happening : Happening E) :
    Longer core (core.note happening) :=
  List.suffix_cons happening core.trace

theorem longer_steps {matched : Prop} (tree : Tables E) :
    Steps matched tree Longer where
  toQuiet := longer_blind.quiet
  exits place core _ _ _ := longer_note core (.exited place)
  leaves _ place _ core _ _ _ := longer_note core (.exited place)
  enters place core :=
    longer_note (core.set (core.view.skip place false)) (.entered place)
  resets place core := longer_note core (.reset place)
  arrives cause place row output core _ _ _ _ _ _ := by
    obtain ⟨added, grown⟩ := tree.arrived_trace cause place row output core
    unfold Longer
    rw [grown]
    exact ((List.suffix_cons _ _).trans (List.suffix_cons _ _)).trans
      (List.suffix_append _ _)
  unentered place core := longer_note core (.unentered place)
  started place core _ := longer_note core (.entered place)
  fired cause place row index core _ :=
    longer_note core (.fired cause place row index core.view)
  turn serial event place core :=
    longer_note core (.turn serial event place core.view)
  handled serial place core := longer_note core (.handled serial place)
  recovering serial error place core :=
    longer_note core (.recovering serial error place core.view)
  counted _ := List.suffix_refl _

/-! ### Flat machines -/

section Flat

variable {flat : Flat E} {rel : Core E → Core E → Prop}
  (steps : Steps True flat.tables rel)

namespace Flat

/-- A row of the table for a state. -/
def Declared (flat : Flat E) (state : E.Ident) (row : StateTransition E) : Prop :=
  row ∈ flat.table.transitions ∧ state = row.in_state.ident

theorem mem_mapping {state : E.Ident} {shared : StateTransition E → Bool}
    {item : StateTransition E × Nat} (among : item ∈ flat.mapping state shared) :
    flat.Declared state item.1 := by
  have inside := List.mem_of_mem_filter (List.fst_mem_of_mem_zipIdx among)
  have both : item.1 ∈ flat.table.transitions ∧ item.1.in_state.ident = state := by
    simpa [Table.rows] using inside
  exact ⟨both.1, both.2.symm⟩

theorem mem_first_of {mappings : List (List (StateTransition E × Nat))}
    {item : StateTransition E × Nat} (among : item ∈ first_of mappings) :
    ∃ mapping ∈ mappings, item ∈ mapping := by
  induction mappings with
  | nil => cases among
  | cons mapping rest ih =>
    cases mapping with
    | nil =>
      obtain ⟨other, inside, here⟩ := ih among
      exact ⟨other, by simp [inside], here⟩
    | cons row rows => exact ⟨row :: rows, by simp, among⟩

/-- All of the arms of a state consist of rows for it. -/
theorem declared_of_first {state : E.Ident}
    {kinds : List (StateTransition E → Bool)} {item : StateTransition E × Nat}
    (among : item ∈ first_of (kinds.map (flat.mapping state))) :
    flat.Declared state item.1 := by
  obtain ⟨mapping, inside, here⟩ := mem_first_of among
  obtain ⟨kind, _, rfl⟩ := List.mem_map.mp inside
  exact mem_mapping here

theorem declared_of_dispatch {state event : E.Ident}
    {item : StateTransition E × Nat}
    (among : item ∈ flat.dispatch_arm state event) :
    flat.Declared state item.1 :=
  @declared_of_first _ flat state
    [fun row => row.triggered .normal event,
      fun row => row.triggered .unexpected event,
      fun row => row.anonymous .unexpected] item among

theorem declared_of_completion {state event : E.Ident}
    {item : StateTransition E × Nat}
    (among : item ∈ flat.completion_arm state event) :
    flat.Declared state item.1 :=
  @declared_of_first _ flat state
    [fun row => row.triggered .completion event,
      fun row => row.anonymous .completion] item among

theorem declared_of_exception {state : E.Ident}
    {item : StateTransition E × Nat} (among : item ∈ flat.exception_arm state) :
    flat.Declared state item.1 :=
  @declared_of_first _ flat state
    [fun row => row.event.kind = .exception && !row.event.wildcard,
      fun row => row.event.kind = .exception && row.event.wildcard] item among

/-- A row of the slot's state arrives as the row of a table does. -/
theorem arrive_run {cause : Cause} {row : StateTransition E} {output : E.Data}
    {core : Core E}
    (held : (core.view.state slot).ident = row.in_state.ident) :
    flat.arrive row output core =
      marking (fun _ => .unentered slot) (flat.entries row)
        (flat.tables.arrived cause slot row output core) := by
  have reported : flat.tables.reports cause slot = true := by
    simp [Tables.reports, slot]
  unfold Flat.arrive Tables.arrived
  rw [get_bind_run, reported, held]
  rfl

end Flat

include steps

theorem flat_move {cause : Cause} {row : StateTransition E}
    {payload : Tables.Payload E} (declared : row ∈ flat.table.transitions)
    (external : row.internal_transition = false) {core : Core E}
    (begun : Running cause Flat.slot row core)
    (held : (core.view.state Flat.slot).ident = row.in_state.ident) :
    rel core (final (flat.move row payload) core) := by
  apply leave_and_arrive steps.toActing
  · exact steps.toExiting.flat_leave external begun
  · exact (underway_exiting flat.tables).flat_leave external begun
  · exact fun core' => token_of_ok
  · intro output core' underway token
    have here : (core'.view.state Flat.slot).ident = row.in_state.ident := by
      rw [underway.1]
      exact held
    have moved := steps.arrives cause Flat.slot row output core' Nat.zero_lt_one
      declared (fun apart => absurd trivial apart) external (begun.underway underway) token
    unfold final
    rw [Flat.arrive_run here]
    refine steps.frame.trans moved (Within.final ?_ _)
    apply marking_within steps.frame
    · apply Within.seq steps.frame (call_hook_within steps.toActing _)
      exact fun _ => steps.action_calls _ _
    · exact fun _ core => steps.unentered Flat.slot core

theorem flat_change {cause : Cause} {row : StateTransition E}
    {payload : Tables.Payload E} (declared : row ∈ flat.table.transitions)
    {core : Core E} (begun : Running cause Flat.slot row core)
    (held : (core.view.state Flat.slot).ident = row.in_state.ident) :
    rel core (final (flat.change row payload) core) := by
  unfold Flat.change
  split
  · have items := Within.seq steps.frame (steps.run_items
      (row.callback_args payload.state_data payload.event_data) row.items)
        fun _ => Within.returns steps.frame ()
    exact items.final _
  · rename_i external
    exact flat_move steps declared (by simpa using external) begun held

theorem flat_row_body {calls : Calls E}
    (nested : ∀ event, Within rel (calls.process_event event)) {cause : Cause}
    {row : StateTransition E} {payload : Tables.Payload E} {index : Nat}
    (declared : row ∈ flat.table.transitions) {core : Core E}
    (held : (core.view.state Flat.slot).ident = row.in_state.ident) :
    rel core (final (flat.row_body calls cause row payload index) core) := by
  have fired := steps.fired cause Flat.slot row index core fun _ => held
  have begun := running_of_fired cause Flat.slot row index core
  have changes := @flat_change _ _ _ steps cause row payload declared _ begun held
  have performed : rel _ (final (flat.tables.perform calls cause row payload
      (flat.change row payload)) _) :=
    steps.toQuiet.perform nested changes
  exact steps.frame.trans fired performed

/-- The candidates of a mapping, up to the first that runs. -/
theorem flat_try_rows {calls : Calls E}
    (nested : ∀ event, Within rel (calls.process_event event)) {cause : Cause}
    {payload : Tables.Payload E} {arm : List (StateTransition E × Nat)}
    {core : Core E}
    (declared : ∀ item ∈ arm,
      flat.Declared (core.view.state Flat.slot).ident item.1) :
    rel core (final (flat.try_rows calls cause payload arm) core) := by
  induction arm with
  | nil => exact steps.frame.refl core
  | cons item rest ih =>
    obtain ⟨row, index⟩ := item
    have here := declared (row, index) (by simp)
    have body : rel core
        (final (flat.row_body calls cause row payload index) core) :=
      flat_row_body steps nested here.1 here.2
    unfold Flat.try_rows final
    rw [bind_run, Flat.transition_code_run]
    cases Tables.row_enabled row payload core.view.world index with
    | error error => exact steps.outer core (.raised cause) trivial
    | ok enabled =>
      cases enabled with
      | false => exact ih fun item among => declared item (by simp [among])
      | true =>
        unfold final at body
        dsimp only
        rw [bind_run]
        cases run : flat.row_body calls cause row payload index core with
        | ok value core' =>
          rw [run] at body
          exact body
        | error fault core' =>
          rw [run] at body
          exact body

section Calls

variable {calls : Calls E}
  (nested : ∀ event, Within rel (calls.process_event event))

include nested

/-- A completion step of a flat machine. -/
theorem flat_completion {step : Effect E Bool}
    (arm : E.Ident → List (StateTransition E × Nat)) (data : E.Data)
    (declared : ∀ state, ∀ item ∈ arm state, flat.Declared state item.1)
    (steps_so : step = do
      let core ← get
      flat.try_rows calls .completion
        ⟨(core.view.state Flat.slot).data, data⟩
        (arm (core.view.state Flat.slot).ident)) :
    Within rel step := by
  rw [steps_so]
  apply Within.of_final
  intro core
  unfold final
  rw [get_bind_run]
  exact flat_try_rows steps nested (declared _)

omit nested in
theorem flat_complete {step : Effect E Bool} (within : Within rel step)
    (fuel : Nat) : Within rel (Flat.complete step fuel) := by
  induction fuel with
  | zero => exact Within.throws steps.frame _
  | succ fuel ih =>
    apply Within.seq steps.frame within
    intro ran
    split
    · exact ih
    · exact Within.returns steps.frame ()

theorem flat_process_completion (origin : Event E) :
    Within rel (flat.process_completion calls origin) :=
  flat_completion steps nested
    (fun state => flat.completion_arm state origin.ident) origin.data
    (fun _ _ among => Flat.declared_of_completion among) rfl

theorem flat_process_anonymous_completion :
    Within rel (flat.process_anonymous_completion calls) :=
  flat_completion steps nested
    (fun state => flat.mapping state fun row => row.anonymous .completion)
    E.default (fun _ _ among => Flat.mem_mapping among) rfl

theorem flat_dispatch_code (serial : Nat) (event : Event E) :
    Within rel (flat.dispatch_code calls serial event) := by
  apply Within.of_final
  intro core
  have turned := steps.turn serial event Flat.slot core
  refine steps.frame.trans turned ?_
  have tried : rel (core.note (.turn serial event Flat.slot core.view))
      (final (flat.try_rows calls (.event serial)
        ⟨(core.view.state Flat.slot).data, event.data⟩
        (flat.dispatch_arm (core.view.state Flat.slot).ident event.ident))
        (core.note (.turn serial event Flat.slot core.view))) :=
    flat_try_rows steps nested fun _ among => Flat.declared_of_dispatch among
  have run : final (flat.dispatch_code calls serial event) core = final
      (if (flat.dispatch_arm (core.view.state Flat.slot).ident
          event.ident).isEmpty then throw .invalid_event
        else do
          let handled ← flat.try_rows calls (.event serial)
            ⟨(core.view.state Flat.slot).data, event.data⟩
            (flat.dispatch_arm (core.view.state Flat.slot).ident event.ident)
          if handled then do
            note (.handled serial Flat.slot)
            Flat.complete (flat.process_completion calls event) calls.fuel
          else throw .transitions_failed : Effect E Unit)
        (core.note (.turn serial event Flat.slot core.view)) := rfl
  rw [run]
  split
  · exact steps.frame.refl _
  apply Within.final_seq steps.frame tried
  intro handled
  split
  · apply Within.seq steps.frame
    · exact Within.modifies fun core => steps.handled serial Flat.slot core
    · exact fun _ => flat_complete steps
        (flat_process_completion steps nested event) calls.fuel
  · exact Within.throws steps.frame _

theorem flat_process_exception (serial : Nat) (error : E.Data) :
    Within rel (flat.process_exception calls serial error) := by
  apply Within.of_final
  intro core
  have asked := steps.recovering serial error Flat.slot core
  refine steps.frame.trans asked ?_
  exact flat_try_rows steps nested fun _ among =>
    Flat.declared_of_exception among

theorem flat_dispatch_outcome (outcome : Except (Fault E) Unit) :
    Within rel (flat.dispatch_outcome calls outcome) := by
  cases outcome with
  | ok _ => exact Within.returns steps.frame ()
  | error fault =>
    unfold Flat.dispatch_outcome
    dsimp only
    split
    · exact Within.throws steps.frame fault
    rename_i error _
    split
    · exact Within.throws steps.frame fault
    intro core
    rw [get_bind_run, set_bind_run]
    have offered := steps.frame.trans (steps.counted core)
      (steps.outer { core with serial := core.serial + 1 }
        (.offered core.serial) trivial)
    have walk : Within rel (do
        let handled ← flat.process_exception calls core.serial error
        if handled then pure () else throw fault : Effect E Unit) := by
      apply Within.seq steps.frame
        (flat_process_exception steps nested core.serial error)
      intro handled
      split
      · exact Within.returns steps.frame ()
      · exact Within.throws steps.frame fault
    exact walk.after steps.frame offered

theorem flat_run_event (event : Event E) :
    Within rel (flat.run_event calls event) := by
  intro core
  unfold Flat.run_event
  rw [get_bind_run]
  by_cases refused : (!E.dispatch core.view.world event.ident) = true
  · rw [if_pos refused]
    exact steps.frame.refl core
  rw [if_neg refused, set_bind_run]
  have dispatch : Within rel (do
      let outcome ← attempt (flat.dispatch_code calls core.serial event)
      flat.dispatch_outcome calls outcome : Effect E Unit) :=
    Within.seq steps.frame (flat_dispatch_code steps nested core.serial
      event).attempt fun outcome => flat_dispatch_outcome steps nested outcome
  exact dispatch.after steps.frame (steps.counted core)

theorem flat_run_pending (fuel : Nat) :
    Within rel (flat.run_pending calls fuel) := by
  induction fuel with
  | zero => exact Within.throws steps.frame _
  | succ fuel ih =>
    intro core
    unfold Flat.run_pending
    rw [get_bind_run]
    cases waiting : core.pending with
    | nil => exact steps.frame.refl core
    | cons event rest =>
      dsimp only
      rw [set_bind_run]
      have taken := steps.frame.trans (steps.pending core rest)
        (steps.outer { core with pending := rest }
          (.dequeued event rest core.view) trivial)
      have dispatched : Within rel (do
          marking (fun _ => .failed) (flat.run_event calls event)
          flat.run_pending calls fuel : Effect E Unit) := by
        apply Within.seq steps.frame
        · apply marking_within steps.frame (flat_run_event steps nested event)
          exact fun _ core => steps.outer core .failed trivial
        · exact fun _ => ih
      exact dispatched.after steps.frame taken

end Calls

theorem flat_process_event (fuel : Nat) (event : Event E) :
    Within rel (flat.process_event fuel event) := by
  induction fuel generalizing event with
  | zero => exact Within.throws steps.frame _
  | succ fuel ih =>
    have nested : ∀ event, Within rel
        ((⟨flat.process_event fuel, fuel⟩ : Calls E).process_event event) := ih
    unfold Flat.process_event
    dsimp only
    split
    · apply Within.seq steps.frame (steps.process _ event)
      exact fun _ => flat_run_pending steps nested fuel
    · exact flat_run_event steps nested event

theorem flat_initial_entries {core : Core E}
    (free : ∀ place, core.view.exit_skip place = false) :
    rel core (final flat.initial_entries core) := by
  have entry : Within rel (do
      call_hook (flat.on_entry (core.view.state Flat.slot).ident)
      action_calls (flat.lifecycle .entry (core.view.state Flat.slot).ident) []
        : Effect E Unit) :=
    Within.seq steps.frame (call_hook_within steps.toActing _)
      fun _ => steps.action_calls _ _
  have begins := steps.started Flat.slot core (free Flat.slot)
  exact steps.frame.trans begins (entry.final _)

end Flat

/-! ### Machines of either kind -/

/-- Rows begin only where their source is held. -/
def Machine.matched : Machine E → Prop
  | .flat _ => True
  | .tree _ => False

/-- An invariant of a machine: it holds of a new one and is carried over by a
relation that its steps stay within. -/
theorem Machine.invariant {machine : Machine E} {rel : Core E → Core E → Prop}
    {holds : Core E → Prop} (steps : Steps machine.matched machine.tables rel)
    (carried : ∀ {core core'}, rel core core' → holds core → holds core')
    (fresh : ∀ world, holds (machine.new world)) {core : Core E}
    (reached : machine.Reaches core) : holds core := by
  have events (fuel : Nat) (event : Event E) :
      Within rel (machine.process_event fuel event) := by
    cases machine with
    | flat code => exact flat_process_event steps fuel event
    | tree code =>
      have steps : Steps False code.toTables rel := steps
      exact (steps.keeps id).process_event fuel event
  have begins (fuel : Nat) (world : E.World) : rel (machine.new world)
      (final (machine.initialize_unlocked fuel) (machine.new world)) := by
    cases machine with
    | flat code =>
      apply Within.final_seq steps.frame
        (flat_initial_entries steps fun _ => rfl)
      exact fun _ => flat_complete steps
        (flat_process_anonymous_completion steps (flat_process_event steps fuel))
        fuel
    | tree code =>
      have steps : Steps False code.toTables rel := steps
      exact Within.final_seq steps.frame (steps.initial_entries fun _ => rfl)
        fun _ => (steps.keeps id).stabilize fuel none
  induction reached with
  | new world => exact fresh world
  | initialize_unlocked world fuel =>
    exact carried (begins fuel world) (fresh world)
  | process_event _ fuel event ih =>
    exact carried ((events fuel event).final _) ih
  | context _ world ih => exact carried (steps.world _ world) ih

end SmlRs.Macros
