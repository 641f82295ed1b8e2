/-
Module: SmlRs.Macros.Reach
Purpose: The runs of a machine, and the rule that lifts what its rows keep to
  whole runs.
Trusted boundary: none
Main exports: Reaches, Quiet, Keeps, Keeps.process_event, Reaches.invariant
-/
import SmlRs.Macros.Machine

namespace SmlRs.Macros

open Lib

variable {E : Environment}

/-- The cores a user can bring a machine into: a new one, initialized or not,
then any events, handled or failing, with the context changed in between. -/
inductive Reaches (tree : Tables E) : Core E → Prop where
  | new (world : E.World) : Reaches tree (tree.new world)
  | initialize_unlocked (world : E.World) (fuel : Nat) :
      Reaches tree (final (tree.initialize_unlocked fuel) (tree.new world))
  | process_event {core : Core E} (reached : Reaches tree core) (fuel : Nat)
      (event : Event E) :
      Reaches tree (final (tree.process_event fuel event) core)
  | context {core : Core E} (reached : Reaches tree core) (world : E.World) :
      Reaches tree (core.set { core.view with world := world })

/-- The dispatch and the slot that a happening is part of. -/
def Happening.part : Happening E → Option (Nat × Slot)
  | .turn serial _ place _ => some (serial, place)
  | .fired (.event serial) place _ _ _ => some (serial, place)
  | .handled serial place => some (serial, place)
  | _ => none

/-- Happenings outside of the turns and of the state changes of rows. -/
def Happening.outer : Happening E → Prop
  | .faulted _ | .recovered _ | .raised _ | .offered _ | .surfaced ..
  | .follow_up .. | .queued .. | .put _ | .put_off _ | .released ..
  | .requeued .. | .dequeued .. | .failed => True
  | _ => False

/-- Happenings of a state change. -/
def Happening.moves : Happening E → Prop
  | .exited _ | .entered _ | .replaced .. | .reset _ | .log_state_change ..
  | .unentered _ => True
  | _ => False

/-- A relation that the actions of rows stay within. -/
structure Acting (rel : Core E → Core E → Prop) : Prop where
  frame : Frame rel
  world : ∀ core world, rel core (core.set { core.view with world := world })

/-- A relation that everything a machine does besides its rows and its turns
stays within. -/
structure Quiet (rel : Core E → Core E → Prop) : Prop extends Acting rel where
  deferred : ∀ core events, rel core { core with deferred := events }
  pending : ∀ core events, rel core { core with pending := events }
  outer : ∀ core happening, happening.outer → rel core (core.note happening)

/-- A relation that the state changes of rows stay within. -/
structure Moving (rel : Core E → Core E → Prop) : Prop where
  frame : Frame rel
  view : ∀ core view, rel core (core.set view)
  moves : ∀ core happening, happening.moves → rel core (core.note happening)

theorem marking_within {α : Type} {rel : Core E → Core E → Prop}
    (frame : Frame rel) {mark : Fault E → Happening E} {effect : Effect E α}
    (within : Within rel effect)
    (marks : ∀ fault core, rel core (core.note (mark fault))) :
    Within rel (marking mark effect) :=
  within.marked frame marks

theorem recording_within {rel : Core E → Core E → Prop} (frame : Frame rel)
    {record : Core E → Happening E} {effect : Effect E Unit}
    (within : Within rel effect)
    (records : ∀ core, rel core (core.note (record core))) :
    Within rel (recording record effect) :=
  Within.seq frame (within.marked frame fun _ core => records core)
    fun _ => Within.modifies records

namespace Acting

variable {rel : Core E → Core E → Prop} (acting : Acting rel)

include acting

theorem lift {α : Type} (fault : E.Data → Fault E) (result : Except E.Data α) :
    Within rel (lift fault result) := by
  cases result with
  | ok value => exact Within.returns acting.frame value
  | error error => exact Within.throws acting.frame (fault error)

theorem call_action (action : E.Ident) (args : List E.Data) :
    Within rel (call_action action args) := by
  intro core
  unfold Macros.call_action
  rw [get_bind_run]
  cases called : E.action action args core.view.world with
  | mk result world =>
    have moved := acting.world core world
    cases result <;> exact moved

theorem action_calls (actions : List E.Ident) (args : List E.Data) :
    Within rel (action_calls actions args) := by
  refine Within.forM acting.frame fun action _ => ?_
  exact Within.seq acting.frame (acting.call_action action args)
    fun _ => Within.returns acting.frame _

theorem run_items (args : List E.Data) (items : List (Item E)) :
    Within rel (run_items args items) := by
  refine Within.foldlM acting.frame (fun output item _ => ?_) _
  cases item with
  | call action => exact acting.call_action action args
  | eval guard action =>
    refine Within.seq acting.frame (Within.gets acting.frame) fun core => ?_
    refine Within.seq acting.frame (acting.lift _ _) fun passed => ?_
    split
    · exact Within.seq acting.frame (acting.call_action action args)
        fun _ => Within.returns acting.frame output
    · exact Within.returns acting.frame output

theorem run_actions (row : StateTransition E) (payload : Tables.Payload E) :
    Within rel (Tables.run_actions row payload) :=
  Within.seq acting.frame (acting.run_items _ _)
    fun _ => Within.returns acting.frame _

end Acting

namespace Quiet

variable {rel : Core E → Core E → Prop} (quiet : Quiet rel)

include quiet

theorem noted {happening : Happening E} (outside : happening.outer) :
    Within rel (note happening) :=
  Within.modifies fun core => quiet.outer core happening outside

theorem defer (capacity : Nat) (event : Event E) :
    Within rel (defer capacity event) := by
  intro core
  unfold Macros.defer
  rw [get_bind_run]
  by_cases room : core.deferred.length < capacity
  · rw [if_pos room]
    exact quiet.deferred core _
  · rw [if_neg room]
    exact quiet.frame.refl core

theorem process (capacity : Nat) (event : Event E) :
    Within rel (process capacity event) := by
  intro core
  unfold Macros.process
  rw [get_bind_run]
  by_cases room : core.pending.length < capacity
  · rw [if_pos room]
    exact quiet.pending core _
  · rw [if_neg room]
    exact quiet.frame.refl core

end Quiet

theorem given_within {rel : Core E → Core E → Prop} (frame : Frame rel)
    {condition : Bool} {effect : Effect E Unit} (within : Within rel effect) :
    Within rel (given condition effect) := by
  unfold given
  split
  · exact within
  · exact Within.returns frame ()

namespace Tables

variable (tree : Tables E)

/-! ### Slots of a tree -/

/-- A slot of one of the tables of a tree. -/
def Placed (place : Slot) : Prop :=
  place.node < tree.size ∧
    place.region < (tree.node place.node).regions.length

variable {tree}

theorem mem_slots {node : Nat} {place : Slot} :
    place ∈ tree.slots node ↔
      place.node = node ∧ place.region < (tree.node node).regions.length := by
  unfold slots
  simp only [List.mem_map, List.mem_range]
  constructor
  · rintro ⟨region, inside, rfl⟩
    exact ⟨rfl, inside⟩
  · rintro ⟨rfl, inside⟩
    exact ⟨place.region, inside, rfl⟩

/-- The first slot of a table is that of its first region. -/
theorem slots_first {node : Nat} {place : Slot} {front back : List Slot}
    (split : tree.slots node = front ++ place :: back)
    (start : place.region = 0) : front = [] := by
  have numbered : (tree.slots node).map (·.region) =
      List.range (tree.node node).regions.length := by
    simp [slots, Function.comp_def]
  rw [split, List.map_append, List.map_cons, start] at numbered
  cases front with
  | nil => rfl
  | cons first front =>
    have distinct := List.nodup_range (n := (tree.node node).regions.length)
    have begins := congrArg List.head? numbered
    rw [← numbered] at distinct
    simp [List.head?_range] at begins
    simp [← begins.2] at distinct

/-- The first slot of a table is in region 0. -/
theorem first_slot {node : Nat} {place : Slot} {back : List Slot}
    (split : tree.slots node = [] ++ place :: back) : place.region = 0 := by
  have begins := congrArg List.head? split
  simp only [slots, List.head?_map, List.head?_range, List.nil_append,
    List.head?_cons] at begins
  split_ifs at begins
  · cases begins
  · simp only [Option.map_some, Option.some.injEq] at begins
    rw [← begins]

theorem mem_references {node : Nat} :
    node ∈ tree.references ↔ 0 < node ∧ node < tree.size := by
  simp only [references, List.mem_range'_1]
  omega

theorem mem_blocks {node : Nat} :
    node ∈ tree.blocks ↔ 0 < node ∧ node < tree.size := by
  unfold blocks
  rw [List.mem_insertionSort, mem_references]

theorem mem_rows {place : Slot} {state : E.Ident} {row : StateTransition E}
    (among : row ∈ tree.rows place state) :
    row ∈ (tree.node place.node).transitions ∧ row.in_state.ident = state := by
  unfold rows at among
  dsimp only at among
  split at among
  · simpa [Table.rows] using among
  · cases among

/-- A row that a slot has for a state is one that it has for its source. -/
theorem rows_of_source {place : Slot} {state : E.Ident} {row : StateTransition E}
    (among : row ∈ tree.rows place state) :
    row ∈ tree.rows place row.in_state.ident := by
  rw [(mem_rows among).2]
  exact among

end Tables

/-- The rows of a slot keep a relation when they are run for this cause. -/
def Bodies (tree : Tables E) (rel : Core E → Core E → Prop) (calls : Calls E)
    (cause : Cause) (place : Slot) : Prop :=
  ∀ row, row ∈ tree.rows place row.in_state.ident → ∀ payload index,
    Within rel (tree.row_body calls cause place row payload index)

section Rows

variable {tree : Tables E} {rel : Core E → Core E → Prop} {calls : Calls E}
  (quiet : Quiet rel) (nested : ∀ event, Within rel (calls.process_event event))

include quiet

theorem put_within (event : Event E) : Within rel (tree.put event) :=
  Within.seq quiet.frame (quiet.process _ event) fun _ => quiet.noted trivial

theorem process_later_within (row : StateTransition E) :
    Within rel (tree.process_later row) := by
  refine Within.seq quiet.frame (Within.gets quiet.frame) fun before => ?_
  refine recording_within quiet.frame ?_ fun core => quiet.outer core _ trivial
  exact Within.forM quiet.frame fun event _ => put_within quiet event

theorem requeue_within : Within rel tree.requeue := by
  refine Within.seq quiet.frame (Within.gets quiet.frame) fun before => ?_
  refine recording_within quiet.frame ?_ fun core => quiet.outer core _ trivial
  refine Within.forM quiet.frame fun event _ => ?_
  refine Within.seq quiet.frame (Within.modifies fun core => ?_) fun _ => ?_
  · exact quiet.deferred core _
  · exact Within.seq quiet.frame (quiet.noted trivial)
      fun _ => put_within quiet event

theorem defer_code_within (row : StateTransition E)
    (payload : Tables.Payload E) :
    Within rel (tree.defer_code row payload) := by
  unfold Tables.defer_code
  split
  · exact Within.seq quiet.frame (quiet.defer _ _) fun _ => quiet.noted trivial
  · exact Within.returns quiet.frame _

include nested

theorem process_code_within (row : StateTransition E) :
    Within rel (tree.process_code calls row) := by
  unfold Tables.process_code
  split
  · exact process_later_within quiet row
  refine Within.seq quiet.frame ?_ fun order => quiet.noted trivial
  refine Within.foldlM quiet.frame (fun order event _ => ?_) []
  refine Within.seq quiet.frame (Within.gets quiet.frame) fun core => ?_
  refine Within.seq quiet.frame (quiet.noted trivial) fun _ => ?_
  refine Within.seq quiet.frame ?_ fun _ => Within.returns quiet.frame _
  exact marking_within quiet.frame (nested event)
    fun _ core => quiet.outer core _ trivial

theorem retry_within (fuel : Nat) : Within rel (Tables.retry calls fuel) := by
  induction fuel with
  | zero => exact Within.throws quiet.frame _
  | succ fuel ih =>
    intro core
    unfold Tables.retry
    rw [get_bind_run]
    cases waiting : core.deferred with
    | nil => exact quiet.frame.refl core
    | cons event rest =>
      have taken := quiet.deferred core rest
      dsimp only
      rw [set_bind_run]
      refine Within.after quiet.frame ?_ taken
      refine Within.seq quiet.frame (quiet.noted trivial) fun _ => ?_
      refine Within.seq quiet.frame (nested event).attempt fun outcome => ?_
      split
      · exact ih
      · exact ih
      · exact ih
      · exact Within.throws quiet.frame _

theorem queue_work_within (row : StateTransition E) :
    Within rel (tree.queue_work calls row) := by
  refine Within.seq quiet.frame (process_code_within quiet nested row)
    fun _ => ?_
  unfold Tables.drain_deferred
  split
  · split
    · exact requeue_within quiet
    · exact retry_within quiet nested calls.fuel
  · exact Within.returns quiet.frame _

/-- What a row does behind its state change. -/
theorem follow_ups_within (cause : Cause) (row : StateTransition E)
    (payload : Tables.Payload E) :
    Within rel (do
      tree.defer_code row payload
      marking (.surfaced cause) (tree.queue_work calls row)) := by
  refine Within.seq quiet.frame (defer_code_within quiet row payload)
    fun _ => ?_
  refine marking_within quiet.frame (queue_work_within quiet nested row)
    fun fault core => ?_
  exact quiet.outer core _ trivial

omit nested

variable {cause : Cause} {place : Slot}
  (bodies : Bodies tree rel calls cause place)

include bodies

theorem branch_within (matched event_data : E.Data) (index : Nat)
    {row : StateTransition E}
    (declared : row ∈ tree.rows place row.in_state.ident) (handled : Bool) :
    Within rel
      (tree.branch calls cause place matched event_data index row handled) := by
  have checked (payload : Tables.Payload E) : Within rel
      (tree.transition_code calls cause place row payload index handled) := by
    refine Within.seq quiet.frame (Within.gets quiet.frame) fun core => ?_
    refine Within.seq quiet.frame ?_ fun runs => ?_
    · exact marking_within quiet.frame (quiet.lift _ _)
        fun _ core => quiet.outer core _ trivial
    split
    · exact Within.seq quiet.frame (bodies row declared payload index)
        fun _ => Within.returns quiet.frame true
    · exact Within.returns quiet.frame handled
  refine Within.seq quiet.frame (Within.gets quiet.frame) fun core => ?_
  dsimp only
  split
  · split
    · exact checked _
    · exact Within.returns quiet.frame handled
  · exact checked _

end Rows

namespace Tree

variable (tree : Tree E) {node : Nat} {place : Slot}

/-- The slots that completion steps and exception walks go through. -/
theorem placed_of_walk (among : node ∈ tree.blocks ++ [0])
    (inside : place ∈ tree.slots node) : tree.Placed place := by
  obtain ⟨rfl, region⟩ := Tables.mem_slots.mp inside
  refine ⟨?_, region⟩
  have size_pos := tree.size_pos
  simp only [List.mem_append, Tables.mem_blocks, List.mem_singleton] at among
  omega

theorem child_spec {owner : Nat} {state : E.Ident}
    (owned : tree.child owner state = some node) :
    (0 < node ∧ node < tree.size) ∧ (tree.node node).owner = owner ∧
      (tree.node node).variant = state := by
  have among := List.mem_of_find?_eq_some owned
  have variant := List.find?_some owned
  simp only [Tables.tree_children, List.mem_filter, Tables.mem_references,
    decide_eq_true_eq] at among variant
  exact ⟨among.1, among.2, variant⟩

theorem owner_lt_child {owner : Nat} {state : E.Ident}
    (owned : tree.child owner state = some node) :
    owner < node := by
  obtain ⟨⟨pos, inside⟩, rfl, _⟩ := tree.child_spec owned
  exact tree.owner_lt node inside pos

/-- A scalar table has one slot. -/
theorem slots_of_scalar (among : node ∈ tree.blocks ++ [0])
    (scalar : (tree.node node).orthogonal = false) :
    tree.slots node = [⟨node, 0⟩] := by
  have size_pos := tree.size_pos
  simp only [List.mem_append, Tables.mem_blocks, List.mem_singleton] at among
  have some_region := tree.regions_pos node (by omega)
  simp only [Table.orthogonal, decide_eq_false_iff_not] at scalar
  have one_region : (tree.node node).regions.length = 1 := by omega
  simp [Tables.slots, one_region]

end Tree

namespace Tables

variable {tree : Tables E} {place : Slot} {state event : E.Ident}

theorem mem_dispatch_arm {item : StateTransition E × Nat}
    (among : item ∈ tree.dispatch_arm place state event) :
    item.1 ∈ tree.rows place state := by
  unfold dispatch_arm at among
  dsimp only at among
  split at among
  · split at among
    · rename_i row found
      cases among with
      | head => exact List.mem_of_find?_eq_some found
      | tail _ none => cases none
    · split at among
      · rename_i row found
        cases among with
        | head => exact List.mem_of_find?_eq_some found
        | tail _ none => cases none
      · cases among
  · have inside := List.fst_mem_of_mem_zipIdx among
    exact List.mem_of_mem_filter inside

theorem mem_origin_arm {row : StateTransition E}
    (among : row ∈ tree.origin_arm place state event) :
    row ∈ tree.rows place state := by
  unfold origin_arm at among
  dsimp only at among
  split at among
  · exact List.mem_of_mem_filter (List.mem_of_mem_take among)
  · exact List.mem_of_mem_filter among

theorem mem_anonymous_arm {row : StateTransition E}
    (among : row ∈ tree.anonymous_arm place state) :
    row ∈ tree.rows place state :=
  List.mem_of_mem_filter among

theorem kind_of_origin_arm {row : StateTransition E}
    (among : row ∈ tree.origin_arm place state event) :
    row.event.kind = .completion := by
  unfold origin_arm at among
  dsimp only at among
  have listed : row ∈ (tree.rows place state).filter fun row =>
      row.triggered .completion event := by
    split at among
    · exact List.mem_of_mem_take among
    · exact among
  have triggered := (List.mem_filter.mp listed).2
  simp only [StateTransition.triggered, Bool.and_eq_true,
    decide_eq_true_eq] at triggered
  exact triggered.1.1

theorem kind_of_anonymous_arm {row : StateTransition E}
    (among : row ∈ tree.anonymous_arm place state) :
    row.event.kind = .completion := by
  have anonymous := (List.mem_filter.mp among).2
  simp only [StateTransition.anonymous, Bool.and_eq_true,
    decide_eq_true_eq] at anonymous
  exact anonymous.1

theorem mem_exception_arm {row : StateTransition E}
    (among : row ∈ tree.exception_arm place state) :
    row ∈ tree.rows place state := by
  unfold exception_arm at among
  simp only [List.mem_append, List.mem_filter] at among
  rcases among with ⟨⟨inside, _⟩, _⟩ | ⟨⟨inside, _⟩, _⟩
  · exact inside
  · exact inside

theorem kind_of_exception_arm {row : StateTransition E}
    (among : row ∈ tree.exception_arm place state) :
    row.event.kind = .exception := by
  unfold exception_arm at among
  simp only [List.mem_append, List.mem_filter, decide_eq_true_eq] at among
  rcases among with ⟨⟨_, kind⟩, _⟩ | ⟨⟨_, kind⟩, _⟩
  · exact kind
  · exact kind

end Tables

/-! ### Relations that do not look at states -/

namespace Moving

variable {tree : Tables E} {rel : Core E → Core E → Prop} (moving : Moving rel)

include moving

theorem acting : Acting rel where
  frame := moving.frame
  world core _ := moving.view core _

theorem noted {happening : Happening E} (moves : happening.moves) :
    Within rel (note happening) :=
  Within.modifies fun core => moving.moves core happening moves

theorem set_state (place : Slot) (value : StateValue E) :
    Within rel (set_state place value) :=
  Within.modifies fun core => moving.view core _

theorem set_skip (place : Slot) (token : Bool) :
    Within rel (set_skip place token) :=
  Within.modifies fun core => moving.view core _

theorem current_lifecycle (kind : EventKind) (place : Slot) :
    Within rel (tree.current_lifecycle kind place) :=
  Within.seq moving.frame (Within.gets moving.frame)
    fun _ => moving.acting.action_calls _ _

theorem tree_exit_children (depth : Nat) (place : Slot) :
    Within rel (tree.tree_exit_children depth place) := by
  induction depth generalizing place with
  | zero => exact Within.returns moving.frame _
  | succ depth ih =>
    refine Within.seq moving.frame (Within.gets moving.frame) fun core => ?_
    split
    · exact Within.returns moving.frame _
    refine Within.forM moving.frame fun inner _ => ?_
    refine Within.seq moving.frame (Within.gets moving.frame) fun core => ?_
    split
    · exact Within.returns moving.frame _
    refine Within.seq moving.frame (ih inner) fun _ => ?_
    refine Within.seq moving.frame (moving.current_lifecycle _ _) fun _ => ?_
    refine Within.seq moving.frame (moving.noted trivial) fun _ => ?_
    exact moving.set_skip inner true

theorem enter_slot {nested : Slot → Effect E Unit}
    (enters : ∀ inner, Within rel (nested inner)) (place : Slot) :
    Within rel (tree.enter_slot nested place) := by
  refine Within.seq moving.frame (moving.set_skip place false) fun _ => ?_
  refine Within.seq moving.frame (moving.noted trivial) fun _ => ?_
  refine Within.seq moving.frame (moving.current_lifecycle _ _) fun _ => ?_
  exact enters place

theorem tree_enter_children (depth : Nat) (place : Slot) :
    Within rel (tree.tree_enter_children depth place) := by
  induction depth generalizing place with
  | zero => exact Within.returns moving.frame _
  | succ depth ih =>
    refine Within.seq moving.frame (Within.gets moving.frame) fun core => ?_
    split
    · exact Within.returns moving.frame _
    unfold Tables.tree_enter_node
    dsimp only
    have enters (node : Nat) : Within rel ((tree.slots node).forM
        (tree.enter_slot (tree.tree_enter_children depth))) :=
      Within.forM moving.frame fun inner _ => moving.enter_slot ih inner
    split
    · exact enters _
    · refine Within.seq moving.frame ?_ fun _ => enters _
      refine Within.forM moving.frame fun inner _ => ?_
      exact Within.seq moving.frame (moving.noted trivial)
        fun _ => moving.set_state inner _

theorem leave (place : Slot) (row : StateTransition E)
    (payload : Tables.Payload E) : Within rel (tree.leave place row payload) := by
  refine Within.seq moving.frame (Within.gets moving.frame) fun core => ?_
  refine Within.seq moving.frame ?_ fun _ => moving.set_skip place true
  unfold Tables.exits
  split
  · exact moving.set_skip place false
  refine Within.seq moving.frame ?_ fun _ => ?_
  · exact given_within moving.frame (moving.tree_exit_children _ _)
  exact Within.seq moving.frame (moving.acting.action_calls _ _)
    fun _ => moving.noted trivial

theorem arrive (cause : Cause) (place : Slot) (row : StateTransition E)
    (output : E.Data) : Within rel (tree.arrive cause place row output) := by
  refine Within.seq moving.frame (Within.gets moving.frame) fun core => ?_
  refine Within.seq moving.frame (moving.noted trivial) fun _ => ?_
  refine Within.seq moving.frame (moving.set_state place _) fun _ => ?_
  refine Within.seq moving.frame (moving.set_skip place false) fun _ => ?_
  refine Within.seq moving.frame (moving.noted trivial) fun _ => ?_
  refine Within.seq moving.frame ?_ fun _ => ?_
  · exact given_within moving.frame (moving.noted trivial)
  refine marking_within moving.frame ?_
    fun fault core => moving.moves core _ trivial
  refine Within.seq moving.frame (moving.acting.action_calls _ _) fun _ => ?_
  exact given_within moving.frame (moving.tree_enter_children _ _)

theorem change (cause : Cause) (place : Slot) (row : StateTransition E)
    (payload : Tables.Payload E) :
    Within rel (tree.change cause place row payload) := by
  unfold Tables.change
  split
  · exact Within.seq moving.frame (moving.acting.run_items _ _)
      fun _ => Within.returns moving.frame _
  refine Within.seq moving.frame (moving.leave place row payload) fun _ => ?_
  exact Within.seq moving.frame (moving.acting.run_actions row payload)
    fun output => moving.arrive cause place row output

theorem initial_entry (place : Slot) : Within rel (tree.initial_entry place) := by
  refine Within.seq moving.frame (Within.gets moving.frame) fun core => ?_
  exact Within.seq moving.frame (moving.noted trivial)
    fun _ => moving.acting.action_calls _ _

theorem initial_entries : Within rel tree.initial_entries := by
  unfold Tables.initial_entries
  split
  · exact Within.forM moving.frame fun place _ => moving.initial_entry place
  split
  · exact moving.initial_entry _
  split
  · exact Within.forM moving.frame
      fun place _ => moving.enter_slot (moving.tree_enter_children _) place
  · exact Within.seq moving.frame (moving.initial_entry _)
      fun _ => moving.tree_enter_children _ _

end Moving

theorem run_row_within {tree : Tables E} {rel : Core E → Core E → Prop}
    {calls : Calls E} (quiet : Quiet rel) (moving : Moving rel)
    (nested : ∀ event, Within rel (calls.process_event event)) (cause : Cause)
    (place : Slot) (row : StateTransition E) (payload : Tables.Payload E) :
    Within rel (tree.run_row calls cause place row payload) := by
  refine Within.seq quiet.frame ?_
    fun _ => follow_ups_within quiet nested cause row payload
  exact marking_within quiet.frame (moving.change cause place row payload)
    fun fault core => quiet.outer core _ trivial

/-- A relation that every step stays within but those of a dispatch. -/
structure Blind (rel : Core E → Core E → Prop) : Prop where
  frame : Frame rel
  view : ∀ core view, rel core (core.set view)
  deferred : ∀ core events, rel core { core with deferred := events }
  pending : ∀ core events, rel core { core with pending := events }
  notes : ∀ core happening, happening.part = none →
    rel core (core.note happening)

namespace Blind

variable {tree : Tables E} {rel : Core E → Core E → Prop} (blind : Blind rel)

include blind

theorem quiet : Quiet rel where
  frame := blind.frame
  world core _ := blind.view core _
  deferred := blind.deferred
  pending := blind.pending
  outer core happening outside := by
    refine blind.notes core happening ?_
    cases happening <;> first | rfl | cases outside

theorem moving : Moving rel where
  frame := blind.frame
  view := blind.view
  moves core happening moves := by
    refine blind.notes core happening ?_
    cases happening <;> first | rfl | cases moves

theorem noted {happening : Happening E} (apart : happening.part = none) :
    Within rel (note happening) :=
  Within.modifies fun core => blind.notes core happening apart

theorem run_row {calls : Calls E}
    (nested : ∀ event, Within rel (calls.process_event event)) (cause : Cause)
    (place : Slot) (row : StateTransition E) (payload : Tables.Payload E) :
    Within rel (tree.run_row calls cause place row payload) :=
  run_row_within blind.quiet blind.moving nested cause place row payload

end Blind

/-- The record of a run only grows. -/
def Longer (core core' : Core E) : Prop :=
  core.trace <:+ core'.trace

theorem longer_blind : Blind (Longer (E := E)) where
  frame :=
    { refl := fun _ => List.suffix_refl _
      trans := fun first second => List.IsSuffix.trans first second }
  view _ _ := List.suffix_refl _
  deferred _ _ := List.suffix_refl _
  pending _ _ := List.suffix_refl _
  notes core happening _ := List.suffix_cons happening core.trace

end SmlRs.Macros
