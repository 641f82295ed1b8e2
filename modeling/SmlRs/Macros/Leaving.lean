/-
Module: SmlRs.Macros.Leaving
Purpose: How often the exit sequences of nested states complete until the state they
  are nested in is replaced.
Trusted boundary: none
Main exports: FromLive, LeftOnce, Shut, left_once
-/
import SmlRs.Macros.Changes
import SmlRs.Macros.Exits
import SmlRs.Macros.Nesting

namespace SmlRs.Macros

open Lib

variable {E : Environment}

/-- An external row begins where its source is held, in an active slot that is
nested in no slot with its token set. -/
def Tables.FromLive (tree : Tables E) : Happening E → List (Happening E) → Prop
  | .fired _ place row _ before, _ =>
      row.internal_transition = false →
        (before.state place).ident = row.in_state.ident ∧ tree.Live before place
  | _, _ => True

instance Tree.decidable_from_live (tree : Tree E) (happening : Happening E)
    (past : List (Happening E)) : Decidable (tree.FromLive happening past) :=
  match happening with
  | .fired .. => inferInstanceAs (Decidable (_ → _))
  | .turn .. | .handled .. | .exited _ | .entered _ | .replaced .. | .reset ..
  | .log_state_change .. | .faulted .. | .recovered .. | .raised .. | .offered ..
  | .recovering .. | .surfaced .. | .unentered .. | .follow_up .. | .queued ..
  | .put .. | .put_off .. | .released .. | .requeued .. | .dequeued ..
  | .failed => inferInstanceAs (Decidable True)

/-- When a state is replaced, each slot that is nested in it and has been entered has
been exited once since. -/
def Tables.LeftOnce (tree : Tables E) : Happening E → List (Happening E) → Prop
  | .replaced place held, past =>
      ∀ node, tree.child place.node held = some node →
        ∀ inner, tree.Placed inner → tree.Within inner.node node →
          .entered inner ∈ past → exits_of inner past = 1
  | _, _ => True

/-- A slot that has been entered and is not live has its token set. -/
structure Tree.Shut (tree : Tree E) (core : Core E) : Prop where
  counted : Counted core
  seated : tree.Seated core
  shut : ∀ place, tree.Placed place → .entered place ∈ core.trace →
    core.view.exit_skip place = true ∨ tree.Live core.view place
  left : Throughout tree.LeftOnce core.trace

namespace Tree

variable {tree : Tree E} {core core' : Core E} {view : View E}
  {outer inner place : Slot} {node top : Nat}

/-- A slot whose token is set while those nested in its state have theirs set takes
no other slot along. -/
theorem live_skip (live : tree.Live view place)
    (closed : ∀ inner, tree.Nests view outer inner → view.exit_skip inner = true) :
    (view.skip outer true).exit_skip place = true ∨
      tree.Live (view.skip outer true) place := by
  induction live with
  | root among => exact .inr (.root among)
  | @nested above inner _ free nests ih =>
    rw [View.skip_exit_skip] at ih ⊢
    by_cases here : above = outer
    · subst here
      left
      by_cases own : inner = above
      · rw [own, Function.update_self]
      · rw [Function.update_of_ne own]
        exact closed inner nests
    · right
      rw [Function.update_of_ne here] at ih
      have lives := ih.resolve_left (by rw [free]; exact Bool.false_ne_true)
      apply Tables.Live.nested lives
      · rw [View.skip_exit_skip, Function.update_of_ne here]
        exact free
      · exact nests

namespace Shut

theorem still (shut : tree.Shut core) (states : core'.view.state = core.view.state)
    (tokens : core'.view.exit_skip = core.view.exit_skip)
    (trace : core'.trace = core.trace) : tree.Shut core' where
  counted := shut.counted.same tokens trace
  seated node inside orthogonal index region at_index := by
    rw [states]
    exact shut.seated node inside orthogonal index region at_index
  shut place placed entered := by
    rw [trace] at entered
    rw [tokens]
    apply (shut.shut place placed entered).imp_right
    intro live
    exact live_congr live fun other _ =>
      ⟨congrFun states other, congrFun tokens other⟩
  left := by
    rw [trace]
    exact shut.left

theorem note {happening : Happening E} (shut : tree.Shut core)
    (staying : happening.staying) : tree.Shut (core.note happening) where
  counted := shut.counted.note staying
  seated := shut.seated
  shut place placed entered := by
    rcases List.mem_cons.mp entered with same | before
    · rw [← same] at staying
      cases staying
    · exact shut.shut place placed before
  left := by
    refine ⟨?_, shut.left⟩
    cases happening <;> trivial

theorem exited (shut : tree.Shut core) (free : core.view.exit_skip place = false)
    (closed : ∀ inner, tree.Nests core.view place inner →
      core.view.exit_skip inner = true) : tree.Shut (core.exited place) where
  counted := shut.counted.exited free
  seated := shut.seated
  shut other placed entered := by
    have before : .entered other ∈ core.trace :=
      (List.mem_cons.mp entered).resolve_left nofun
    rcases shut.shut other placed before with token | live
    · left
      change (core.view.skip place true).exit_skip other = true
      rw [View.skip_exit_skip]
      by_cases here : other = place
      · rw [here, Function.update_self]
      · rw [Function.update_of_ne here]
        exact token
    · exact live_skip live closed
  left := ⟨trivial, shut.left⟩

end Shut

/-! ### Walks out of a state -/

/-- A slot is closed, and so are some others. -/
structure Closing (tree : Tree E) (states : Slot → StateValue E)
    (closed : Slot → Prop) (core : Core E) : Prop where
  shut : tree.Shut core
  states : core.view.state = states
  closed : ∀ place, closed place → core.view.exit_skip place = true

variable {states : Slot → StateValue E} {closed : Slot → Prop}

namespace Closing

theorem weaken {other : Slot → Prop} (closing : tree.Closing states closed core)
    (less : ∀ place, other place → core.view.exit_skip place = true) :
    tree.Closing states other core :=
  ⟨closing.shut, closing.states, less⟩

theorem acts (closing : tree.Closing states closed core) (acts : Acts core core') :
    tree.Closing states closed core' where
  shut := closing.shut.still acts.2.1 acts.1 acts.2.2
  states := acts.2.1.trans closing.states
  closed place among := by
    rw [acts.1]
    exact closing.closed place among

theorem exited (closing : tree.Closing states closed core)
    (free : core.view.exit_skip place = false)
    (nested : ∀ inner, tree.Nests core.view place inner → closed inner) :
    tree.Closing states (fun other => closed other ∨ other = place)
      (core.exited place) where
  shut := closing.shut.exited free fun inner nests =>
    closing.closed inner (nested inner nests)
  states := closing.states
  closed other among := by
    change (core.view.skip place true).exit_skip other = true
    rw [View.skip_exit_skip]
    by_cases here : other = place
    · rw [here, Function.update_self]
    · rw [Function.update_of_ne here]
      exact closing.closed other (among.resolve_right here)

end Closing

/-- The slots that are nested in the state of a slot. -/
def NestedIn (tree : Tree E) (states : Slot → StateValue E) (outer inner : Slot) :
    Prop :=
  tree.child outer.node (states outer).ident = some inner.node ∧
    inner ∈ tree.slots inner.node

theorem exit_slot_closing {nested : Slot → Effect E Unit}
    (below : Triple (tree.Closing states closed) (nested place)
      (fun _ => tree.Closing states fun inner =>
        closed inner ∨ tree.NestedIn states place inner)
      fun _ => tree.Shut)
    (spares : Within (Spares place.node) (nested place)) :
    Triple (tree.Closing states closed) (tree.exit_slot nested place)
      (fun _ => tree.Closing states fun inner => closed inner ∨ inner = place)
      fun _ => tree.Shut := by
  apply Triple.reads
  intro start
  cases token : start.view.exit_skip place with
  | true =>
    intro core began
    obtain ⟨rfl, closing⟩ := began
    exact closing.weaken fun other among =>
      among.elim (closing.closed other) fun here => here ▸ token
  | false =>
    have free : Triple (fun core : Core E => core.view.exit_skip place = false)
        (nested place) (fun _ core => core.view.exit_skip place = false)
        fun _ core => core.view.exit_skip place = false :=
      spares.triple fun kept start => (kept place (Nat.le_refl _)).trans start
    have walk : Triple (fun core => core = start ∧ tree.Closing states closed core)
        (nested place)
        (fun _ core => core.view.exit_skip place = false ∧
          tree.Closing states (fun inner =>
            closed inner ∨ tree.NestedIn states place inner) core)
        fun _ => tree.Shut := by
      apply (free.both below).conseq
      · intro core began
        exact ⟨began.1 ▸ token, began.2⟩
      · exact fun _ _ => id
      · exact fun _ _ ends => ends.2
    apply Triple.seq walk
    intro _
    have hooks : Triple
        (fun core : Core E => core.view.exit_skip place = false ∧
          tree.Closing states (fun inner =>
            closed inner ∨ tree.NestedIn states place inner) core)
        (tree.current_lifecycle .exit place)
        (fun _ core => core.view.exit_skip place = false ∧
          tree.Closing states (fun inner =>
            closed inner ∨ tree.NestedIn states place inner) core)
        fun _ => tree.Shut := by
      have acts : Within Acts (tree.current_lifecycle .exit place) :=
        Within.seq acts_acting.frame (Within.gets acts_acting.frame)
          fun _ => acts_acting.action_calls _ _
      apply (acts.triple _).conseq (fun _ => id) (fun _ _ => id)
      · exact fun _ core ends => ends.2.shut
      · intro before after acts held
        refine ⟨?_, held.2.acts acts⟩
        rw [acts.1]
        exact held.1
    apply Triple.seq hooks
    intro _ core held
    obtain ⟨free, closing⟩ := held
    have left := closing.exited free fun inner nests => by
      right
      rw [Tables.Nests, closing.states] at nests
      exact nests
    exact left.weaken fun other among => left.closed other (among.imp_left .inl)

/-- A walk out of a state closes the slots that are nested in it. -/
theorem exit_children_closing (depth : Nat) (inside : outer.node < tree.size)
    (deep : tree.size ≤ depth + outer.node) (closed : Slot → Prop) :
    Triple (tree.Closing states closed) (tree.tree_exit_children depth outer)
      (fun _ => tree.Closing states fun inner =>
        closed inner ∨ tree.NestedIn states outer inner)
      fun _ => tree.Shut := by
  induction depth generalizing outer closed with
  | zero => omega
  | succ depth ih =>
    apply Triple.reads
    intro start core began
    obtain ⟨rfl, closing⟩ := began
    cases owned : tree.child outer.node (core.view.state outer).ident with
    | none =>
      apply closing.weaken
      intro other among
      apply among.elim (closing.closed other)
      intro nests
      rw [NestedIn, ← closing.states, owned] at nests
      cases nests.1
    | some node =>
      have lower := tree.owner_lt_child owned
      have below := (tree.child_spec owned).1.2
      have walk : Triple (tree.Closing states fun inner => closed inner ∨ inner ∈ [])
          ((tree.slots node).forM (tree.exit_slot (tree.tree_exit_children depth)))
          (fun _ => tree.Closing states fun inner =>
            closed inner ∨ inner ∈ tree.slots node)
          fun _ => tree.Shut := by
        apply @Triple.forM _ _ _ _ _
          (fun front => tree.Closing states fun inner => closed inner ∨ inner ∈ front)
        intro front inner back split
        have among : inner ∈ tree.slots node := by
          rw [split]
          exact List.mem_append_right _ List.mem_cons_self
        have here := (Tables.mem_slots.mp among).1
        apply (exit_slot_closing (ih (by omega) (by omega) _)
          (tree_exit_spares tree depth inner)).conseq (fun _ => id) _ fun _ _ => id
        intro _ core closing
        apply closing.weaken
        intro other among
        apply closing.closed
        rw [List.mem_append, List.mem_singleton] at among
        rcases among with before | listed | same
        · exact .inl (.inl before)
        · exact .inl (.inr listed)
        · exact .inr same
      have start : tree.Closing states (fun inner => closed inner ∨ inner ∈ []) core :=
        closing.weaken fun other among =>
          closing.closed other (among.resolve_right List.not_mem_nil)
      apply (walk.conseq (fun _ => id) _ fun _ _ => id) core start
      intro _ core' ends
      apply ends.weaken
      intro other among
      apply ends.closed
      apply among.imp_right
      intro nests
      rw [NestedIn, ← closing.states, owned] at nests
      rw [Option.some.inj nests.1]
      exact nests.2

/-! ### Rows that leave -/

variable {cause : Cause} {row : StateTransition E} {payload : Tables.Payload E}

/-- The tokens of the tables above a table stay as they are. -/
def Lower (place : Slot) (core core' : Core E) : Prop :=
  ∀ other, other.node < place.node →
    core'.view.exit_skip other = core.view.exit_skip other

theorem lower_acting (place : Slot) : Acting (Lower (E := E) place) where
  frame :=
    { refl := fun _ _ _ => rfl
      trans := fun first second other above =>
        (second other above).trans (first other above) }
  world _ _ _ _ := rfl

theorem leave_lower : Within (Lower place) (tree.leave place row payload) := by
  have acting := lower_acting (E := E) place
  have own (token : Bool) : Within (Lower place) (set_skip (E := E) place token) := by
    intro core other above
    apply Function.update_of_ne
    rintro rfl
    omega
  apply Within.seq acting.frame (Within.gets acting.frame)
  intro core
  apply Within.seq acting.frame _ fun _ => own true
  unfold Tables.exits
  split
  · exact own false
  · apply Within.seq acting.frame
    · apply given_within acting.frame
      exact (tree_exit_spares tree _ place).mono
        fun _ _ spares other above => spares other (Nat.le_of_lt above)
    · intro _
      exact Within.seq acting.frame (acting.action_calls _ _)
        fun _ => Within.modifies fun _ _ _ => rfl

/-- A row that begins at its source leaves its slot, with its token set. -/
theorem leave_closing (inside : place.node < tree.size)
    (declared : row ∈ (tree.node place.node).transitions)
    (apart : ¬ (row.in_state.composite = true ∧ row.out_state.composite = true))
    (source : (states place).ident = row.in_state.ident) :
    Triple (tree.Closing states fun _ => False) (tree.leave place row payload)
      (fun _ => tree.Closing states (· = place)) fun _ => tree.Shut := by
  apply Triple.reads
  intro start
  cases token : start.view.exit_skip place with
  | true =>
    intro core began
    obtain ⟨rfl, closing⟩ := began
    have same : (core.view.skip place false).skip place true = core.view := by
      unfold View.skip
      simp [← token]
    change tree.Closing states (· = place)
      (core.set ((core.view.skip place false).skip place true))
    rw [same]
    exact closing.weaken fun other here => here ▸ token
  | false =>
    have nested : Triple
        (fun core => core = start ∧ tree.Closing states (fun _ => False) core)
        (given (row.in_state.composite && !row.out_state.composite)
          (tree.composite_exit place))
        (fun _ core => core.view.exit_skip place = false ∧
          tree.Closing states (tree.NestedIn states place) core)
        fun _ => tree.Shut := by
      have spares : Triple (fun core : Core E => core.view.exit_skip place = false)
          (tree.composite_exit place) (fun _ core => core.view.exit_skip place = false)
          fun _ core => core.view.exit_skip place = false :=
        (tree_exit_spares tree _ place).triple
          fun kept free => (kept place (Nat.le_refl _)).trans free
      unfold given
      split
      · apply (spares.both (exit_children_closing tree.size inside
          (Nat.le_add_right _ _) fun _ => False)).conseq
        · intro core began
          exact ⟨began.1 ▸ token, began.2⟩
        · intro _ core ends
          exact ⟨ends.1, ends.2.weaken fun other nests =>
            ends.2.closed other (.inr nests)⟩
        · exact fun _ _ ends => ends.2
      · rename_i plain
        apply Triple.returns
        intro core began
        obtain ⟨rfl, closing⟩ := began
        refine ⟨token, closing.weaken ?_⟩
        intro other nests
        rw [NestedIn, source] at nests
        have composite : row.in_state.composite = true := by
          rw [tree.in_composite _ inside row declared, nests.1]
          rfl
        cases aim : row.out_state.composite with
        | true => exact absurd ⟨composite, aim⟩ apart
        | false =>
          rw [composite, aim] at plain
          exact absurd rfl plain
    have exits : Triple
        (fun core => core = start ∧ tree.Closing states (fun _ => False) core)
        (tree.exits place row payload false)
        (fun _ core => tree.Closing states (· = place)
          (core.set (core.view.skip place true)))
        fun _ => tree.Shut := by
      apply Triple.seq nested
      intro _
      have actions (actions : List E.Ident) (args : List E.Data) : Triple
          (fun core : Core E => core.view.exit_skip place = false ∧
            tree.Closing states (tree.NestedIn states place) core)
          (action_calls actions args)
          (fun _ core => core.view.exit_skip place = false ∧
            tree.Closing states (tree.NestedIn states place) core)
          fun _ => tree.Shut := by
        apply ((acts_acting.action_calls actions args).triple _).conseq (fun _ => id)
          (fun _ _ => id)
        · exact fun _ core ends => ends.2.shut
        · intro before after acts held
          refine ⟨?_, held.2.acts acts⟩
          rw [acts.1]
          exact held.1
      apply Triple.seq (actions _ _)
      intro _ core held
      obtain ⟨free, closing⟩ := held
      apply (closing.exited free _).weaken
      · rintro other rfl
        exact Function.update_self _ _ _
      · intro inner nests
        rw [Tables.Nests, closing.states] at nests
        exact nests
    exact Triple.seq exits fun _ => Triple.modifies fun core left => left

/-! ### Arrivals -/

theorem arrived_view (tree : Tables E) (cause : Cause) (place : Slot)
    (row : StateTransition E) (output : E.Data) (core : Core E) :
    (tree.arrived cause place row output core).view =
      (core.view.replace place ⟨row.out_state.ident, output⟩).skip place false := by
  unfold Tables.arrived
  dsimp only
  split
  · rfl
  · rfl

theorem entered_arrived {output : E.Data}
    (entered : .entered inner ∈ (tree.arrived cause place row output core).trace) :
    inner = place ∨ .entered inner ∈ core.trace := by
  unfold Tables.arrived at entered
  dsimp only at entered
  split at entered
  · simpa using entered
  · simpa using entered

/-- Nothing under a table has been entered without being exited since. -/
def Unopened (tree : Tree E) (top : Nat) (core : Core E) : Prop :=
  ∀ inner, tree.Placed inner → tree.Within inner.node top →
    .entered inner ∈ core.trace → core.view.exit_skip inner = true

/-- A slot with its token set takes no other along where it changes its state. -/
theorem live_replace {value : StateValue E} (live : tree.Live view inner)
    (left : view.exit_skip place = true) :
    tree.Live ((view.replace place value).skip place false) inner := by
  induction live with
  | root among => exact .root among
  | @nested outer inner _ free nests ih =>
    have apart : outer ≠ place := by
      rintro rfl
      rw [left] at free
      cases free
    apply Tables.Live.nested ih
    · rw [View.skip_exit_skip, Function.update_of_ne apart]
      exact free
    · refine ⟨?_, nests.2⟩
      rw [View.skip_state, View.replace_state, Function.update_of_ne apart]
      exact nests.1

/-- What is nested in a state that is replaced is closed. -/
theorem left_once_arrived {output : E.Data} (parted : tree.Parted)
    (shut : tree.Shut core) (left : core.view.exit_skip place = true)
    (placed : tree.Placed place) :
    Throughout tree.LeftOnce (tree.arrived cause place row output core).trace := by
  have replaced : tree.LeftOnce
      (.replaced place (core.view.state place).ident) core.trace := by
    intro node owned inner inner_placed under entered
    rw [shut.counted.token inner]
    have token : core.view.exit_skip inner = true := by
      apply (shut.shut inner inner_placed entered).resolve_right
      intro live
      have lower := tree.owner_lt_child owned
      obtain ⟨outer, above, free, nests⟩ := tree.live_passes (by omega) live under
      have same : outer = place := by
        apply parted.alone shut.seated _ (live_placed above) placed nests owned
        exact (tree.child_spec nests).2.1.symm.trans (tree.child_spec owned).2.1
      rw [same, left] at free
      cases free
    rw [token]
    rfl
  unfold Tables.arrived
  dsimp only
  split
  · exact ⟨trivial, trivial, replaced, shut.left⟩
  · exact ⟨trivial, replaced, shut.left⟩

section Arrived

variable {output : E.Data} (parted : tree.Parted) (shut : tree.Shut core)
  (declared : row ∈ (tree.node place.node).transitions)
  (listed : row ∈ tree.rows place row.in_state.ident)
  (external : row.internal_transition = false)
  (left : core.view.exit_skip place = true)

include parted shut declared listed external

theorem seated_arrived : tree.Seated (tree.arrived cause place row output core) := by
  intro node inside orthogonal
  obtain ⟨blank, rows, generated⟩ := parted.regions node inside orthogonal
  exact in_regions_arrived generated declared listed external
    (shut.seated node inside orthogonal)

include left

theorem unopened_arrived (placed : tree.Placed place)
    (owned : tree.child place.node row.out_state.ident = some node) :
    tree.Unopened node (tree.arrived cause place row output core) := by
  intro inner within_table under entered
  have seated := @seated_arrived _ _ _ _ cause _ output parted shut declared listed
    external
  have lower := tree.owner_lt_child owned
  have behind := tree.le_of_within under
  have apart : inner ≠ place := by
    rintro rfl
    omega
  have before := (entered_arrived entered).resolve_left apart
  rw [arrived_view, View.skip_exit_skip, View.replace_exit_skip,
    Function.update_of_ne apart]
  apply (shut.shut inner within_table before).resolve_right
  intro live
  obtain ⟨outer, above, free, nests⟩ := tree.live_passes (by omega) live under
  have differs : outer ≠ place := by
    rintro rfl
    rw [left] at free
    cases free
  apply differs
  apply parted.alone seated
  · exact (tree.child_spec nests).2.1.symm.trans (tree.child_spec owned).2.1
  · exact live_placed above
  · exact placed
  · rw [arrived_view, View.skip_state, View.replace_state,
      Function.update_of_ne differs]
    exact nests
  · rw [arrived_view, View.skip_state, View.replace_state, Function.update_self]
    exact owned

theorem shut_arrived (live : tree.Live core.view place) :
    tree.Shut (tree.arrived cause place row output core) where
  counted := shut.counted.arrived tree.toTables cause row output left
  seated := seated_arrived parted shut declared listed external
  shut inner inner_placed entered := by
    rw [arrived_view]
    rcases entered_arrived entered with rfl | before
    · exact .inr (live_replace live left)
    · rcases shut.shut inner inner_placed before with token | lives
      · by_cases here : inner = place
        · subst here
          exact .inr (live_replace live left)
        · left
          rw [View.skip_exit_skip, Function.update_of_ne here]
          exact token
      · exact .inr (live_replace lives left)
  left := left_once_arrived parted shut left (live_placed live)

end Arrived

/-! ### Walks into a state -/

/-- A slot is open, and nothing nested in its state. -/
structure Opening (tree : Tree E) (outer : Slot) (core : Core E) : Prop where
  shut : tree.Shut core
  live : tree.Live core.view outer
  free : core.view.exit_skip outer = false
  unopened : ∀ node, tree.child outer.node (core.view.state outer).ident = some node →
    tree.Unopened node core

theorem Opening.acts (opening : tree.Opening outer core) (acts : Acts core core') :
    tree.Opening outer core' where
  shut := opening.shut.still acts.2.1 acts.1 acts.2.2
  live := live_congr opening.live fun other _ =>
    ⟨congrFun acts.2.1 other, congrFun acts.1 other⟩
  free := by
    rw [acts.1]
    exact opening.free
  unopened node owned inner placed within entered := by
    rw [acts.2.1] at owned
    rw [acts.2.2] at entered
    rw [acts.1]
    exact opening.unopened node owned inner placed within entered

/-- A slot is as it was before. -/
def Untouched (place : Slot) (core core' : Core E) : Prop :=
  core'.view.state place = core.view.state place ∧
    core'.view.exit_skip place = core.view.exit_skip place ∧
      (.entered place ∈ core'.trace → .entered place ∈ core.trace)

theorem untouched_frame (place : Slot) : Frame (Untouched (E := E) place) where
  refl _ := ⟨rfl, rfl, id⟩
  trans first second := ⟨second.1.trans first.1, second.2.1.trans first.2.1,
    fun entered => first.2.2 (second.2.2 entered)⟩

theorem untouched_of_acts (acts : Acts core core') (place : Slot) :
    Untouched place core core' :=
  ⟨congrFun acts.2.1 place, congrFun acts.1 place, fun entered => by
    rw [acts.2.2] at entered
    exact entered⟩

/-- The reset of a slot takes along only slots under its table. -/
theorem live_reset {value : StateValue E} (live : tree.Live view inner)
    (beside : ¬ tree.Within inner.node place.node) :
    tree.Live (view.replace place value) inner := by
  induction live with
  | root among => exact .root among
  | @nested outer inner _ free nests ih =>
    obtain ⟨lower, inside, owner⟩ := nests_below nests
    have aside : ¬ tree.Within outer.node place.node := by
      intro under
      rw [← owner] at under
      exact beside (tree.within_of_owner (by omega) inside under)
    have apart : outer ≠ place := by
      rintro rfl
      exact aside (.inl rfl)
    apply Tables.Live.nested (ih aside) free
    refine ⟨?_, nests.2⟩
    rw [View.replace_state, Function.update_of_ne apart]
    exact nests.1

/-- The core behind the reset of a slot. -/
def resetted (tree : Tables E) (place : Slot) (core : Core E) : Core E :=
  (core.note (.reset place)).set
    (core.view.replace place ⟨tree.initial place, E.default⟩)

theorem untouched_resetted (apart : inner ≠ place) :
    Untouched inner core (resetted tree.toTables place core) := by
  refine ⟨?_, rfl, fun entered => (List.mem_cons.mp entered).resolve_left nofun⟩
  exact Function.update_of_ne apart _ _

theorem Shut.reset (parted : tree.Parted) (shut : tree.Shut core)
    (unopened : tree.Unopened place.node core) :
    tree.Shut (resetted tree.toTables place core) where
  counted := by
    have noted : Counted (core.note (.reset place)) := shut.counted.note trivial
    exact noted.same rfl rfl
  seated node inside orthogonal := by
    obtain ⟨blank, rows, generated⟩ := parted.regions node inside orthogonal
    exact in_regions_reset generated (shut.seated node inside orthogonal)
  shut inner placed entered := by
    have before := (List.mem_cons.mp entered).resolve_left nofun
    by_cases under : tree.Within inner.node place.node
    · exact .inl (unopened inner placed under before)
    · exact (shut.shut inner placed before).imp_right fun live => live_reset live under
  left := ⟨trivial, shut.left⟩

/-- The core behind the entry of a slot. -/
def opened (place : Slot) (core : Core E) : Core E :=
  (core.set (core.view.skip place false)).note (.entered place)

theorem opened_free : (opened place core).view.exit_skip place = false :=
  Function.update_self _ _ _

theorem live_opened (live : tree.Live core.view inner) :
    tree.Live (opened place core).view inner := by
  induction live with
  | root among => exact .root among
  | @nested outer inner _ free nests ih =>
    refine Tables.Live.nested ih ?_ nests
    by_cases here : outer = place
    · rw [here]
      exact Function.update_self _ _ _
    · exact (Function.update_of_ne here _ _).trans free

theorem untouched_opened (apart : inner ≠ place) :
    Untouched inner core (opened place core) :=
  ⟨rfl, Function.update_of_ne apart _ _, fun entered =>
    (List.mem_cons.mp entered).resolve_left fun same =>
      apart (Happening.entered.inj same)⟩

theorem Shut.opened (shut : tree.Shut core) (live : tree.Live core.view place) :
    tree.Shut (opened place core) where
  counted := shut.counted.entered place rfl rfl
  seated := shut.seated
  shut inner placed entered := by
    by_cases here : inner = place
    · subst here
      exact .inr (live_opened live)
    · obtain ⟨_, token, before⟩ := @untouched_opened _ core _ _ here
      rw [token]
      exact (shut.shut inner placed (before entered)).imp_right live_opened
  left := ⟨trivial, shut.left⟩

/-- What the slots of a table still need on the way into it. -/
structure Waiting (tree : Tree E) (node : Nat) (base : Core E) (front : List Slot)
    (core : Core E) : Prop where
  shut : tree.Shut core
  aside : ∀ inner, ¬ tree.Within inner.node node → Untouched inner base core
  waiting : ∀ inner, tree.Placed inner → tree.Within inner.node node →
    .entered inner ∈ core.trace → core.view.exit_skip inner = true ∨ inner ∈ front ∨
      ∃ place ∈ front, ∃ top, tree.child node (core.view.state place).ident = some top ∧
        tree.Within inner.node top

section Walk

variable {base : Core E} {front back : List Slot}

/-- The slot above a table is live while the slots of the table are entered. -/
theorem Waiting.nested (waiting : tree.Waiting node base front core)
    (opening : tree.Opening outer base)
    (owned : tree.child outer.node (base.view.state outer).ident = some node)
    (among : place ∈ tree.slots node) : tree.Live core.view place := by
  have lower := tree.owner_lt_child owned
  have here := (Tables.mem_slots.mp among).1
  have outside {other : Slot} (above : other.node ≤ outer.node) :
      Untouched other base core := by
    apply waiting.aside
    intro within
    have behind := tree.le_of_within within
    omega
  have kept := outside (Nat.le_refl _)
  have live : tree.Live core.view outer := by
    apply live_congr opening.live
    intro other above
    have same := outside (Nat.le_of_lt above)
    exact ⟨same.1, same.2.1⟩
  have free : core.view.exit_skip outer = false := kept.2.1.trans opening.free
  apply Tables.Live.nested live free
  refine ⟨?_, here ▸ among⟩
  rw [kept.1, here]
  exact owned

/-- A slot that is reset waits as before. -/
theorem Waiting.reset (waiting : tree.Waiting node base [] core)
    (parted : tree.Parted) (here : place.node = node) :
    tree.Waiting node base [] (resetted tree.toTables place core) where
  shut := by
    apply waiting.shut.reset parted
    intro inner placed within entered
    rw [here] at within
    rcases waiting.waiting inner placed within entered with token | none | ⟨_, none, _⟩
    · exact token
    · cases none
    · cases none
  aside inner outside := by
    apply (untouched_frame inner).trans (waiting.aside inner outside)
    apply untouched_resetted
    rintro rfl
    exact outside (.inl here)
  waiting inner placed within entered := by
    have before := (List.mem_cons.mp entered).resolve_left nofun
    rcases waiting.waiting inner placed within before with token | none | ⟨_, none, _⟩
    · exact .inl token
    · cases none
    · cases none

/-- A slot is entered, and what is nested in its state is not open. -/
theorem Waiting.opens (waiting : tree.Waiting node base front core)
    (parted : tree.Parted) (live : tree.Live core.view place)
    (split : tree.slots node = front ++ place :: back) :
    tree.Opening place (opened place core) := by
  have among : place ∈ tree.slots node := by
    rw [split]
    exact List.mem_append_right _ List.mem_cons_self
  obtain ⟨here, _⟩ := Tables.mem_slots.mp among
  refine ⟨waiting.shut.opened live, live_opened live, opened_free, ?_⟩
  intro top nested inner placed within entered
  have deeper := tree.owner_lt_child nested
  have behind := tree.le_of_within within
  have apart : inner ≠ place := by
    rintro rfl
    omega
  obtain ⟨_, token, before⟩ := @untouched_opened _ core _ _ apart
  have under : tree.Within inner.node node :=
    here ▸ tree.within_trans within (tree.within_child nested)
  rw [token]
  rcases waiting.waiting inner placed under (before entered) with token | listed |
    ⟨other, listed, top', nested', within'⟩
  · exact token
  · have level := (Tables.mem_slots.mp (split ▸ List.mem_append_left _ listed)).1
    omega
  · have placed' : other ∈ tree.slots node := split ▸ List.mem_append_left _ listed
    obtain ⟨level, region⟩ := Tables.mem_slots.mp placed'
    have inside := here ▸ (live_placed live).1
    rw [← here] at nested'
    have one : top = top' := tree.within_unique within within'
      ((tree.depth_child nested).trans (tree.depth_child nested').symm)
    have same : other = place := by
      apply parted.alone waiting.shut.seated (level.trans here.symm)
      · exact ⟨level ▸ inside, level ▸ region⟩
      · exact live_placed live
      · rw [level, ← here]
        exact nested'
      · exact one ▸ nested
    have distinct := tree.slots_nodup node
    rw [split] at distinct
    have apart := (List.nodup_append.mp distinct).2.2 other listed place List.mem_cons_self
    exact absurd same apart

/-- A slot that does not lie under what is nested in the state of a slot. -/
def Beyond (tree : Tree E) (outer : Slot) (core : Core E) (inner : Slot) : Prop :=
  ∀ node, tree.child outer.node (core.view.state outer).ident = some node →
    ¬ tree.Within inner.node node

theorem beyond_of_le (level : inner.node ≤ outer.node) : tree.Beyond outer core inner := by
  intro node owned within
  have lower := tree.owner_lt_child owned
  have behind := tree.le_of_within within
  omega

/-- A walk into the state of a slot that is open leaves the other slots alone. -/
def Walks (tree : Tree E) (walk : Slot → Effect E Unit) : Prop :=
  ∀ outer base, tree.Opening outer base →
    Triple (· = base) (walk outer)
      (fun _ core => tree.Shut core ∧
        ∀ inner, tree.Beyond outer base inner → Untouched inner base core)
      fun _ => tree.Shut

/-- A slot has been entered, with what is nested in its state. -/
theorem Waiting.entered {acted nested : Core E}
    (waiting : tree.Waiting node base front core)
    (split : tree.slots node = front ++ place :: back)
    (acts : Acts (opened place core) acted) (shut : tree.Shut nested)
    (rest : ∀ inner, tree.Beyond place acted inner → Untouched inner acted nested) :
    tree.Waiting node base (front ++ [place]) nested := by
  have level {other : Slot} (among : other ∈ tree.slots node) : other.node = node :=
    (Tables.mem_slots.mp among).1
  have here : place.node = node := level (by simp [split])
  have acted_state (other : Slot) : acted.view.state other = core.view.state other :=
    congrFun acts.2.1 other
  have untouched {inner : Slot} (apart : inner ≠ place)
      (beyond : tree.Beyond place acted inner) : Untouched inner core nested :=
    (untouched_frame inner).trans (untouched_opened apart)
      ((untouched_frame inner).trans (untouched_of_acts acts inner) (rest inner beyond))
  refine ⟨shut, ?_, ?_⟩
  · intro inner outside
    apply (untouched_frame inner).trans (waiting.aside inner outside)
    apply untouched
    · rintro rfl
      exact outside (.inl here)
    · intro top owned within
      exact outside (here ▸ tree.within_trans within (tree.within_child owned))
  · intro inner placed within entered
    by_cases beyond : tree.Beyond place acted inner
    · by_cases same : inner = place
      · exact .inr (.inl (by simp [same]))
      · have kept := untouched same beyond
        rcases waiting.waiting inner placed within (kept.2.2 entered) with token |
          listed | ⟨other, listed, top, owned, under⟩
        · exact .inl (kept.2.1.trans token)
        · exact .inr (.inl (List.mem_append_left _ listed))
        · refine .inr (.inr ⟨other, List.mem_append_left _ listed, top, ?_, under⟩)
          have flat : other.node ≤ place.node := by
            rw [here, level (split ▸ List.mem_append_left _ listed)]
          rw [(rest other (beyond_of_le flat)).1, acted_state]
          exact owned
    · simp only [Beyond, not_forall, not_not] at beyond
      obtain ⟨top, owned, under⟩ := beyond
      refine .inr (.inr ⟨place, by simp, top, ?_, under⟩)
      rw [(rest place (beyond_of_le (Nat.le_refl _))).1, ← here]
      exact owned

/-- The slots of a table are entered one after the other. -/
theorem enter_slots_shut (parted : tree.Parted) {walk : Slot → Effect E Unit}
    (walks : tree.Walks walk)
    (lives : ∀ {front core place}, tree.Waiting node base front core →
      place ∈ tree.slots node → tree.Live core.view place) :
    Triple (tree.Waiting node base []) ((tree.slots node).forM (tree.enter_slot walk))
      (fun _ => tree.Waiting node base (tree.slots node)) fun _ => tree.Shut := by
  apply Triple.forM
  intro front place back split before waiting
  have among : place ∈ tree.slots node := by
    rw [split]
    exact List.mem_append_right _ List.mem_cons_self
  have opens := waiting.opens parted (lives waiting among) split
  have acts : Within Acts (tree.current_lifecycle .entry place) :=
    Within.seq acts_acting.frame (Within.gets acts_acting.frame)
      fun _ => acts_acting.action_calls _ _
  have run : tree.enter_slot walk place before =
      (do
        tree.current_lifecycle .entry place
        walk place : Effect E Unit) (opened place before) := rfl
  rw [run, bind_run]
  cases hooks : tree.current_lifecycle .entry place (opened place before) with
  | error fault acted =>
    have same := acts.error hooks
    exact opens.shut.still same.2.1 same.1 same.2.2
  | ok value acted =>
    have same := acts.ok hooks
    have inner := walks place acted (opens.acts same)
    dsimp only
    cases nested : walk place acted with
    | error fault nested' => exact inner.error rfl nested
    | ok value nested' =>
      obtain ⟨shut, rest⟩ := inner.ok rfl nested
      exact waiting.entered split same shut rest

/-- A walk into a state opens slots whose state is open. -/
theorem enter_children_shut (parted : tree.Parted) (depth : Nat) :
    tree.Walks (tree.tree_enter_children depth) := by
  induction depth with
  | zero =>
    intro outer base opening
    apply Triple.returns
    rintro core rfl
    exact ⟨opening.shut, fun inner _ => (untouched_frame inner).refl core⟩
  | succ depth ih =>
    intro outer base opening
    apply Triple.reads
    rintro start core ⟨rfl, rfl⟩
    cases owned : tree.child outer.node (core.view.state outer).ident with
    | none => exact ⟨opening.shut, fun inner _ => (untouched_frame inner).refl core⟩
    | some node =>
      have start : tree.Waiting node core [] core :=
        { shut := opening.shut
          aside := fun inner _ => (untouched_frame inner).refl core
          waiting := fun inner placed within entered =>
            .inl (opening.unopened node owned inner placed within entered) }
      have resets : Triple (tree.Waiting node core [])
          ((tree.slots node).forM tree.reset_slot)
          (fun _ => tree.Waiting node core []) fun _ => tree.Shut := by
        apply Triple.loop
        intro place among core' waiting
        exact waiting.reset parted (Tables.mem_slots.mp among).1
      have enters := @enter_slots_shut _ _ node core parted _ ih
        fun waiting => waiting.nested opening owned
      have entered : Triple (tree.Waiting node core [])
          (tree.tree_enter_node (tree.tree_enter_children depth) node)
          (fun _ => tree.Waiting node core (tree.slots node))
          fun _ => tree.Shut := by
        unfold Tables.tree_enter_node
        dsimp only
        split
        · exact enters
        · exact Triple.seq resets fun _ => enters
      apply (entered.conseq (fun _ => id) _ fun _ _ => id) core start
      intro _ core' ends
      refine ⟨ends.shut, fun inner beyond => ends.aside inner ?_⟩
      exact beyond node owned

end Walk

end Tree

end SmlRs.Macros
