/-
Module: SmlRs.Macros.Renewal
Purpose: The tables nested in a state are entered when the state is, in runs in which
  no entry of a composite state fails over tables that have been used before.
Trusted boundary: none
Main exports: Renewed, FailsUnused, enter_children_lacking, freshly_entered
-/
import SmlRs.Macros.Occupancies

namespace SmlRs.Macros

open Lib

variable {E : Environment}

/-! ### Occupancies in a record -/

/-- A slot is set, or occupied anew. -/
def Happening.occupies (place : Slot) : Happening E → Bool
  | .replaced other _ | .reset other | .entered other => other = place
  | _ => false

/-- A slot moves, or its state is exited. -/
def Happening.uses (place : Slot) : Happening E → Bool
  | .replaced other _ | .exited other => other = place
  | _ => false

/-- A slot is as it was in the new machine. -/
def Unused (place : Slot) (record : List (Happening E)) : Prop :=
  ∀ happening ∈ record, happening.uses place = false

namespace Tables

variable (tree : Tables E)

/-- Whether a table is entered in the state it was left in. -/
def retains (node : Nat) : Bool :=
  !(tree.node node).orthogonal && (tree.node node).history

/-- A slot is in its initial state, or its table retains the state it is in. -/
def Begun (place : Slot) (record : List (Happening E)) : Prop :=
  tree.replayed place record = tree.initial place ∨ tree.retains place.node = true

/-- Since a slot was last set or occupied, another one has been entered in its initial
or its retained state, or that one is as it was in the new machine. -/
def Renewed (outer inner : Slot) (record : List (Happening E)) : Prop :=
  ∃ since past, record = since ++ past ∧
    (∀ happening ∈ since, happening.occupies outer = false) ∧
      (Unused inner past ∨
        ∃ before, past = .entered inner :: before ∧ tree.Begun inner before)

/-- An event is dispatched to a nested slot of the present occupancy. -/
def OwnTurn : Happening E → List (Happening E) → Prop
  | .turn _ _ place before, past =>
      ∀ outer, tree.Nests before outer place → tree.Renewed outer place past
  | _, _ => True

/-- The row of a slot has just replaced its state. -/
def arrives (place : Slot) : List (Happening E) → Bool
  | .replaced other _ :: _ => other = place
  | _ => false

/-- A slot that no row of its own enters is in its initial state, or its table retains
the state it is in. -/
def Outset : Happening E → List (Happening E) → Prop
  | .entered place, past => Tables.arrives place past = true ∨ tree.Begun place past
  | _, _ => True

/-- The entries of a composite state fail only where the slots nested in it are as
they were in the new machine. -/
def FailsUnused : Happening E → List (Happening E) → Prop
  | .unentered place, past =>
      ∀ node, tree.child place.node (tree.replayed place past) = some node →
        ∀ inner, tree.Within inner.node node → Unused inner past
  | _, _ => True

variable {tree} {outer inner : Slot} {record : List (Happening E)}

theorem Renewed.unused (unused : Unused inner record) : tree.Renewed outer inner record :=
  ⟨[], record, rfl, fun _ none => absurd none List.not_mem_nil, .inl unused⟩

theorem Renewed.entered (begun : tree.Begun inner record) :
    tree.Renewed outer inner (.entered inner :: record) :=
  ⟨[], _, rfl, fun _ none => absurd none List.not_mem_nil, .inr ⟨record, rfl, begun⟩⟩

theorem Renewed.note {happening : Happening E} (renewed : tree.Renewed outer inner record)
    (beside : happening.occupies outer = false) :
    tree.Renewed outer inner (happening :: record) := by
  obtain ⟨since, past, rfl, apart, start⟩ := renewed
  refine ⟨happening :: since, past, rfl, ?_, start⟩
  intro later among
  rcases List.mem_cons.mp among with rfl | among
  · exact beside
  · exact apart later among

end Tables

theorem replayed_unused {tree : Tables E} {place : Slot} {record : List (Happening E)}
    (unused : Unused place record) : tree.replayed place record = tree.initial place := by
  induction record with
  | nil => rfl
  | cons happening past ih =>
    obtain ⟨here, before⟩ := List.forall_mem_cons.mp unused
    cases happening with
    | reset other =>
      rw [Tables.replayed, ih before]
      exact ite_self _
    | replaced other held =>
      rw [Tables.replayed, if_neg (of_decide_eq_false here)]
      exact ih before
    | _ => exact ih before

/-! ### What is still to be entered -/

/-- The slots that are nested in the state of another one have been entered since it
was, apart from some. -/
structure Tree.Lacking (tree : Tree E) (lacking : Slot → Slot → Prop) (core : Core E) :
    Prop where
  renewed : ∀ outer inner, tree.Nests core.view outer inner →
    tree.Renewed outer inner core.trace ∨ lacking outer inner
  turns : Throughout tree.OwnTurn core.trace
  outset : Throughout tree.Outset core.trace

namespace Tree

variable {tree : Tree E} {core core' : Core E} {outer inner place : Slot}
  {node : Nat} {lacking : Slot → Slot → Prop}

namespace Lacking

theorem weaken {other : Slot → Slot → Prop} (lacks : tree.Lacking lacking core)
    (more : ∀ outer inner, tree.Nests core.view outer inner → lacking outer inner →
      other outer inner) : tree.Lacking other core :=
  ⟨fun outer inner nests => (lacks.renewed outer inner nests).imp_right
    (more outer inner nests), lacks.turns, lacks.outset⟩

theorem still (lacks : tree.Lacking lacking core)
    (states : core'.view.state = core.view.state) (trace : core'.trace = core.trace) :
    tree.Lacking lacking core' where
  renewed outer inner nests := by
    rw [trace]
    apply lacks.renewed
    rw [Tables.Nests, ← states]
    exact nests
  turns := by
    rw [trace]
    exact lacks.turns
  outset := by
    rw [trace]
    exact lacks.outset

theorem acts (lacks : tree.Lacking lacking core) (acts : Acts core core') :
    tree.Lacking lacking core' :=
  lacks.still acts.2.1 acts.2.2

theorem note {happening : Happening E} (lacks : tree.Lacking lacking core)
    (beside : ∀ place, happening.occupies place = false)
    (turn : tree.OwnTurn happening core.trace) :
    tree.Lacking lacking (core.note happening) where
  renewed outer inner nests :=
    (lacks.renewed outer inner nests).imp_left fun renewed => renewed.note (beside outer)
  turns := ⟨turn, lacks.turns⟩
  outset := by
    refine ⟨?_, lacks.outset⟩
    cases happening with
    | entered place => exact absurd (beside place) (by simp [Happening.occupies])
    | _ => trivial

theorem exited (lacks : tree.Lacking lacking core) :
    tree.Lacking lacking (core.exited place) := by
  have noted : tree.Lacking lacking (core.note (.exited place)) :=
    lacks.note (fun _ => rfl) trivial
  exact noted.still rfl rfl

/-- A slot that is set lacks what is nested in its state. -/
theorem resetted (lacks : tree.Lacking lacking core) :
    tree.Lacking (fun outer inner => lacking outer inner ∨ outer = place)
      (resetted tree.toTables place core) where
  renewed outer inner nests := by
    by_cases here : outer = place
    · exact .inr (.inr here)
    · have same : (Tree.resetted tree.toTables place core).view.state outer =
          core.view.state outer := Function.update_of_ne here _ _
      rw [Tables.Nests, same] at nests
      apply (lacks.renewed outer inner nests).imp _ .inl
      intro renewed
      exact renewed.note (decide_eq_false (Ne.symm here))
  turns := ⟨trivial, lacks.turns⟩
  outset := ⟨trivial, lacks.outset⟩

/-- A slot that is entered is no longer lacking, but what is nested in its state is. -/
theorem opened (lacks : tree.Lacking lacking core)
    (begun : tree.Begun place core.trace) :
    tree.Lacking (fun outer inner => (lacking outer inner ∧ inner ≠ place) ∨
      outer = place) (opened place core) where
  renewed outer inner nests := by
    by_cases here : outer = place
    · exact .inr (.inr here)
    · by_cases entered : inner = place
      · subst entered
        exact .inl (.entered begun)
      · apply (lacks.renewed outer inner nests).imp
        · intro renewed
          exact renewed.note (decide_eq_false (Ne.symm here))
        · exact fun lack => .inl ⟨lack, entered⟩
  turns := ⟨trivial, lacks.turns⟩
  outset := ⟨.inr begun, lacks.outset⟩

theorem arrived {cause : Cause} {row : StateTransition E} {output : E.Data}
    (lacks : tree.Lacking lacking core) :
    tree.Lacking (fun outer inner => lacking outer inner ∨ outer = place)
      (tree.arrived cause place row output core) where
  renewed outer inner nests := by
    by_cases here : outer = place
    · exact .inr (.inr here)
    · rw [Tables.Nests, arrived_view, View.skip_state, View.replace_state,
        Function.update_of_ne here] at nests
      apply (lacks.renewed outer inner nests).imp _ .inl
      intro renewed
      have left : tree.Renewed outer inner
          (.replaced place (core.view.state place).ident :: core.trace) :=
        renewed.note (decide_eq_false (Ne.symm here))
      have moved : tree.Renewed outer inner
          (.entered place :: .replaced place (core.view.state place).ident ::
            core.trace) := left.note (decide_eq_false (Ne.symm here))
      unfold Tables.arrived
      dsimp only
      split
      · exact moved.note rfl
      · exact moved
  turns := by
    unfold Tables.arrived
    dsimp only
    split
    · exact ⟨trivial, trivial, trivial, lacks.turns⟩
    · exact ⟨trivial, trivial, lacks.turns⟩
  outset := by
    have own : tree.Outset (.entered place)
        (.replaced place (core.view.state place).ident :: core.trace) :=
      .inl (decide_eq_true rfl)
    unfold Tables.arrived
    dsimp only
    split
    · exact ⟨trivial, own, trivial, lacks.outset⟩
    · exact ⟨own, trivial, lacks.outset⟩

end Lacking

/-! ### Walks into a state -/

/-- A relation that the entries of some tables, and of all those under them, stay
within. -/
structure Entering (tree : Tree E) (among : Nat → Prop)
    (rel : Core E → Core E → Prop) : Prop extends Acting rel where
  down : ∀ {owner state node}, among owner → tree.child owner state = some node →
    among node
  opens : ∀ place core, among place.node → place ∈ tree.slots place.node →
    rel core (opened place core)
  resets : ∀ place core, among place.node → tree.retains place.node = false →
    rel core (resetted tree.toTables place core)

namespace Entering

variable {among : Nat → Prop} {rel : Core E → Core E → Prop}
  (entering : tree.Entering among rel)

include entering

theorem enter_slot {walk : Slot → Effect E Unit} (listed : place ∈ tree.slots node)
    (here : among node) (walks : Within rel (walk place)) :
    Within rel (tree.enter_slot walk place) := by
  obtain rfl := (Tables.mem_slots.mp listed).1
  have nested : Within rel (do
      tree.current_lifecycle .entry place
      walk place : Effect E Unit) :=
    Within.seq entering.frame
      (Within.seq entering.frame (Within.gets entering.frame)
        fun _ => entering.action_calls _ _) fun _ => walks
  intro core
  exact nested.after entering.frame (entering.opens place core here listed)

theorem enter_node {walk : Slot → Effect E Unit} (here : among node)
    (walks : ∀ inner ∈ tree.slots node, Within rel (walk inner)) :
    Within rel (tree.tree_enter_node walk node) := by
  have enters : Within rel ((tree.slots node).forM (tree.enter_slot walk)) := by
    apply Within.forM entering.frame
    exact fun inner listed => entering.enter_slot listed here (walks inner listed)
  unfold Tables.tree_enter_node
  dsimp only
  split
  · exact enters
  · rename_i returns
    apply Within.seq entering.frame _ fun _ => enters
    apply Within.forM entering.frame
    intro inner listed core
    have level := (Tables.mem_slots.mp listed).1
    apply entering.resets inner core
    · rw [level]
      exact here
    · rw [level]
      exact (Bool.not_eq_true _).mp returns

theorem enter_children (depth : Nat)
    (below : ∀ state node, tree.child place.node state = some node → among node) :
    Within rel (tree.tree_enter_children depth place) := by
  induction depth generalizing place with
  | zero => exact Within.returns entering.frame _
  | succ depth ih =>
    apply Within.seq entering.frame (Within.gets entering.frame)
    intro core
    split
    · exact Within.returns entering.frame _
    · rename_i node owned
      have here := below _ node owned
      apply entering.enter_node here
      intro inner listed
      apply ih
      intro state deeper nested
      rw [(Tables.mem_slots.mp listed).1] at nested
      exact entering.down here nested

/-- The walk into the state that a slot is in. -/
theorem enter_children_at (depth : Nat) {core : Core E}
    (below : ∀ node, tree.child place.node (core.view.state place).ident = some node →
      among node) : rel core (final (tree.tree_enter_children depth place) core) := by
  cases depth with
  | zero => exact entering.frame.refl core
  | succ depth =>
    unfold Tables.tree_enter_children final
    rw [get_bind_run]
    cases owned : tree.child place.node (core.view.state place).ident with
    | none => exact entering.frame.refl core
    | some node =>
      have here := below node owned
      apply (entering.enter_node here _).final
      intro inner listed
      apply entering.enter_children
      intro state deeper nested
      rw [(Tables.mem_slots.mp listed).1] at nested
      exact entering.down here nested

end Entering

/-- The slots up to a table stay in their states. -/
def Stays (tree : Tree E) (last : Nat) (core core' : Core E) : Prop :=
  ∀ place, place.node ≤ last → core'.view.state place = core.view.state place ∧
    tree.replayed place core'.trace = tree.replayed place core.trace

theorem stays_entering (last : Nat) : tree.Entering (last < ·) (tree.Stays last) where
  down above owned := Nat.lt_trans above (tree.owner_lt_child owned)
  frame :=
    { refl := fun _ _ _ => ⟨rfl, rfl⟩
      trans := fun first second place above =>
        ⟨(second place above).1.trans (first place above).1,
          (second place above).2.trans (first place above).2⟩ }
  world _ _ _ _ := ⟨rfl, rfl⟩
  opens _ _ _ _ _ _ := ⟨rfl, rfl⟩
  resets place core behind _ other above := by
    have apart : other ≠ place := by
      rintro rfl
      omega
    exact ⟨Function.update_of_ne apart _ _, if_neg (Ne.symm apart)⟩

/-- A slot lies under the table that is nested in a state. -/
def Under (tree : Tree E) (place : Slot) (state : E.Ident) (inner : Slot) : Prop :=
  ∃ node, tree.child place.node state = some node ∧ tree.Within inner.node node

/-- What a table still lacks when a front part of its slots has been entered. -/
def Still (tree : Tree E) (lacking : Slot → Slot → Prop) (place : Slot) (node : Nat)
    (front : List Slot) (outer inner : Slot) : Prop :=
  lacking outer inner ∨ (outer = place ∧ inner ∉ front) ∨
    (outer ∈ tree.slots node ∧ outer ∉ front)

/-- A table on the way into it, with a front part of its slots entered. -/
structure Entrance (tree : Tree E) (lacking : Slot → Slot → Prop) (place : Slot)
    (state : E.Ident) (node : Nat) (front : List Slot) (core : Core E) : Prop where
  held : (core.view.state place).ident = state
  begun : ∀ inner ∈ tree.slots node, tree.Begun inner core.trace
  lacks : tree.Lacking (tree.Still lacking place node front) core

variable {state : E.Ident} {front back : List Slot}

/-- Where a walk into a table fails, only what lies under the table is lacking. -/
theorem Lacking.under {other : Slot → Slot → Prop}
    (owned : tree.child place.node state = some node)
    (held : (core.view.state place).ident = state) (lacks : tree.Lacking other core)
    (less : ∀ outer inner, other outer inner → lacking outer inner ∨ outer = place ∨
      outer ∈ tree.slots node ∨ tree.Within inner.node node) :
    tree.Lacking (fun outer inner => lacking outer inner ∨ tree.Under place state inner)
      core := by
  apply lacks.weaken
  intro outer inner nests lack
  rcases less outer inner lack with before | rfl | among | within
  · exact .inl before
  · have same := nests.1
    rw [held] at same
    exact .inr ⟨inner.node, same, .inl rfl⟩
  · have here := (Tables.mem_slots.mp among).1
    exact .inr ⟨node, owned, here ▸ within_child nests.1⟩
  · exact .inr ⟨node, owned, within⟩

/-- A slot that lacks what is nested in its state lacks what lies under it. -/
theorem Lacking.beneath (held : (core.view.state place).ident = state)
    (lacks : tree.Lacking (fun outer inner => lacking outer inner ∨ outer = place) core) :
    tree.Lacking (fun outer inner => lacking outer inner ∨ tree.Under place state inner)
      core := by
  apply lacks.weaken
  rintro outer inner nests (before | rfl)
  · exact .inl before
  · have owned := nests.1
    rw [held] at owned
    exact .inr ⟨inner.node, owned, .inl rfl⟩

/-- The slots of a table are entered one after the other. -/
theorem enter_slots_lacking {walk : Slot → Effect E Unit}
    (owned : tree.child place.node state = some node)
    (stays : ∀ inner ∈ tree.slots node, Within (tree.Stays node) (walk inner))
    (walks : ∀ inner ∈ tree.slots node, ∀ lacking held, Triple
      (fun core => (core.view.state inner).ident = held ∧
        tree.Lacking (fun outer below => lacking outer below ∨ outer = inner) core)
      (walk inner) (fun _ => tree.Lacking lacking)
      fun _ => tree.Lacking fun outer below => lacking outer below ∨
        tree.Under inner held below) :
    Triple (tree.Entrance lacking place state node [])
      ((tree.slots node).forM (tree.enter_slot walk))
      (fun _ => tree.Entrance lacking place state node (tree.slots node))
      fun _ => tree.Lacking fun outer inner =>
        lacking outer inner ∨ tree.Under place state inner := by
  have lower := tree.owner_lt_child owned
  apply Triple.forM
  intro front inner back split core entrance
  have among : inner ∈ tree.slots node := by
    rw [split]
    exact List.mem_append_right _ List.mem_cons_self
  have here := (Tables.mem_slots.mp among).1
  obtain ⟨held, begun, lacks⟩ := entrance
  have opens := lacks.opened (begun inner among)
  have acts : Within Acts (tree.current_lifecycle .entry inner) :=
    Within.seq acts_acting.frame (Within.gets acts_acting.frame)
      fun _ => acts_acting.action_calls _ _
  have run : tree.enter_slot walk inner core =
      (do
        tree.current_lifecycle .entry inner
        walk inner : Effect E Unit) (opened inner core) := rfl
  rw [run, bind_run]
  cases hooks : tree.current_lifecycle .entry inner (opened inner core) with
  | error fault acted =>
    have same := acts.error hooks
    have kept : (acted.view.state place).ident = state :=
      (congrArg StateValue.ident (congrFun same.2.1 place)).trans held
    apply (opens.acts same).under owned kept
    intro outer below lack
    rcases lack with ⟨before | ⟨rfl, _⟩ | ⟨slot, _⟩, _⟩ | rfl
    · exact .inl before
    · exact .inr (.inl rfl)
    · exact .inr (.inr (.inl slot))
    · exact .inr (.inr (.inl among))
  | ok value acted =>
    have same := acts.ok hooks
    have next : tree.Lacking (fun outer below =>
        tree.Still lacking place node (front ++ [inner]) outer below ∨ outer = inner)
        acted := by
      apply (opens.acts same).weaken
      intro outer below _ lack
      rcases lack with ⟨before | ⟨rfl, behind⟩ | ⟨slot, behind⟩, apart⟩ | rfl
      · exact .inl (.inl before)
      · exact .inl (.inr (.inl ⟨rfl, by simp [behind, apart]⟩))
      · by_cases own : outer = inner
        · exact .inr own
        · exact .inl (.inr (.inr ⟨slot, by simp [behind, own]⟩))
      · exact .inr rfl
    have kept : (acted.view.state place).ident = state :=
      (congrArg StateValue.ident (congrFun same.2.1 place)).trans held
    have nested := walks inner among _ _ acted ⟨rfl, next⟩
    have moved := stays inner among acted
    dsimp only
    cases ran : walk inner acted with
    | error fault last =>
      rw [ran] at nested moved
      apply Lacking.under owned _ nested
      · intro outer below lack
        rcases lack with (before | ⟨rfl, _⟩ | ⟨slot, _⟩) | ⟨top, child, within⟩
        · exact .inl before
        · exact .inr (.inl rfl)
        · exact .inr (.inr (.inl slot))
        · exact .inr (.inr (.inr (here ▸ within_trans within (within_child child))))
      · exact (congrArg StateValue.ident (moved place (by omega)).1).trans kept
    | ok value last =>
      rw [ran] at nested moved
      refine ⟨?_, ?_, nested⟩
      · exact (congrArg StateValue.ident (moved place (by omega)).1).trans kept
      · intro other listed
        have flat := (Tables.mem_slots.mp listed).1
        have before := begun other listed
        unfold Tables.Begun at before ⊢
        rw [(moved other (Nat.le_of_eq flat)).2, same.2.2]
        exact before

/-- The slots of a table are reset one after the other. -/
theorem reset_slots_lacking (owned : tree.child place.node state = some node) :
    Triple (fun core => (core.view.state place).ident = state ∧
        tree.Lacking (fun outer inner => lacking outer inner ∨ outer = place) core)
      ((tree.slots node).forM tree.reset_slot)
      (fun _ => tree.Entrance lacking place state node [])
      fun _ => tree.Lacking fun outer inner => lacking outer inner ∨
        tree.Under place state inner := by
  have lower := tree.owner_lt_child owned
  have resets : Triple (fun core => (core.view.state place).ident = state ∧
        (∀ inner ∈ ([] : List Slot),
          tree.replayed inner core.trace = tree.initial inner) ∧
        tree.Lacking (fun outer inner => lacking outer inner ∨ outer = place ∨
          outer ∈ ([] : List Slot)) core)
      ((tree.slots node).forM tree.reset_slot)
      (fun _ core => (core.view.state place).ident = state ∧
        (∀ inner ∈ tree.slots node,
          tree.replayed inner core.trace = tree.initial inner) ∧
        tree.Lacking (fun outer inner => lacking outer inner ∨ outer = place ∨
          outer ∈ tree.slots node) core)
      fun _ => tree.Lacking fun outer inner => lacking outer inner ∨
        tree.Under place state inner := by
    apply @Triple.forM _ _ _ _ _ fun front (core : Core E) =>
      (core.view.state place).ident = state ∧
        (∀ inner ∈ front, tree.replayed inner core.trace = tree.initial inner) ∧
        tree.Lacking (fun outer inner => lacking outer inner ∨ outer = place ∨
          outer ∈ front) core
    intro front inner back split core reset
    obtain ⟨held, initial, lacks⟩ := reset
    have among : inner ∈ tree.slots node := by
      rw [split]
      exact List.mem_append_right _ List.mem_cons_self
    have here := (Tables.mem_slots.mp among).1
    have apart : place ≠ inner := by
      rintro rfl
      omega
    refine ⟨?_, ?_, ?_⟩
    · exact (congrArg StateValue.ident (Function.update_of_ne apart _ _)).trans held
    · intro other listed
      show (if inner = other then tree.initial other
        else tree.replayed other core.trace) = tree.initial other
      by_cases own : inner = other
      · exact if_pos own
      · rw [if_neg own]
        rcases List.mem_append.mp listed with before | same
        · exact initial other before
        · exact absurd (List.mem_singleton.mp same).symm own
    · apply lacks.resetted.weaken
      rintro outer below _ ((before | rfl | behind) | rfl)
      · exact .inl before
      · exact .inr (.inl rfl)
      · exact .inr (.inr (List.mem_append_left _ behind))
      · exact .inr (.inr (List.mem_append_right _ (List.mem_singleton.mpr rfl)))
  apply resets.conseq
  · intro core start
    refine ⟨start.1, fun _ none => absurd none List.not_mem_nil, ?_⟩
    exact start.2.weaken fun _ _ _ lack => lack.imp_right .inl
  · intro _ core ends
    refine ⟨ends.1, fun inner among => .inl (ends.2.1 inner among), ?_⟩
    apply ends.2.2.weaken
    rintro outer inner _ (before | rfl | among)
    · exact .inl before
    · exact .inr (.inl ⟨rfl, List.not_mem_nil⟩)
    · exact .inr (.inr ⟨among, List.not_mem_nil⟩)
  · exact fun _ _ => id

/-- A walk into the state of a slot leaves nothing lacking that is nested in it. -/
theorem enter_children_lacking (depth : Nat) (inside : place.node < tree.size)
    (deep : tree.size ≤ depth + place.node) :
    Triple (fun core => (core.view.state place).ident = state ∧
        tree.Lacking (fun outer inner => lacking outer inner ∨ outer = place) core)
      (tree.tree_enter_children depth place) (fun _ => tree.Lacking lacking)
      fun _ => tree.Lacking fun outer inner => lacking outer inner ∨
        tree.Under place state inner := by
  induction depth generalizing place lacking state with
  | zero => omega
  | succ depth ih =>
    apply Triple.reads
    rintro start core ⟨rfl, held, lacks⟩
    subst held
    cases owned : tree.child place.node (core.view.state place).ident with
    | none =>
      apply lacks.weaken
      rintro outer inner nests (before | rfl)
      · exact before
      · rw [Tables.Nests, owned] at nests
        cases nests.1
    | some node =>
      have lower := tree.owner_lt_child owned
      have below := (tree.child_spec owned).1.2
      have stays (inner : Slot) (among : inner ∈ tree.slots node) :
          Within (tree.Stays node) (tree.tree_enter_children depth inner) := by
        apply (stays_entering node).enter_children
        rw [(Tables.mem_slots.mp among).1]
        exact fun _ _ => tree.owner_lt_child
      have enters := @enter_slots_lacking _ _ _ _ lacking _ _ owned stays
        fun inner among lacking held => by
          have here := (Tables.mem_slots.mp among).1
          exact ih (by omega) (by omega)
      have walk : Triple (fun core' =>
            (core'.view.state place).ident = (core.view.state place).ident ∧
              tree.Lacking (fun outer inner => lacking outer inner ∨ outer = place) core')
          (tree.tree_enter_node (tree.tree_enter_children depth) node)
          (fun _ => tree.Entrance lacking place (core.view.state place).ident node
            (tree.slots node))
          fun _ => tree.Lacking fun outer inner => lacking outer inner ∨
            tree.Under place (core.view.state place).ident inner := by
        unfold Tables.tree_enter_node
        dsimp only
        split
        · rename_i retained
          apply enters.strengthen
          intro core' start
          refine ⟨start.1, fun inner among => .inr ?_, ?_⟩
          · rw [(Tables.mem_slots.mp among).1]
            exact retained
          · apply start.2.weaken
            rintro outer inner _ (before | rfl)
            · exact .inl before
            · exact .inr (.inl ⟨rfl, List.not_mem_nil⟩)
        · exact Triple.seq (reset_slots_lacking owned) fun _ => enters
      apply (walk.conseq (fun _ => id) _ fun _ _ => id) core ⟨rfl, lacks⟩
      intro _ last entrance
      apply entrance.lacks.weaken
      rintro outer inner nests (before | ⟨rfl, behind⟩ | ⟨among, behind⟩)
      · exact before
      · have same := nests.1
        rw [entrance.held, owned] at same
        rw [Option.some.inj same] at behind
        exact absurd nests.2 behind
      · exact absurd among behind

/-! ### Rows -/

/-- What a run keeps while no row is at its change: the record shows the states, and
nothing is lacking. -/
structure Kept (tree : Tree E) (core : Core E) : Prop where
  traced : tree.Traced core
  lacks : tree.Lacking (fun _ _ => False) core

section Row

variable {cause : Cause} {row : StateTransition E} {payload : Tables.Payload E}
  {output : E.Data}

theorem Kept.still (kept : tree.Kept core) (states : core'.view.state = core.view.state)
    (trace : core'.trace = core.trace) : tree.Kept core' :=
  ⟨kept.traced.same states trace, kept.lacks.still states trace⟩

theorem Kept.note {happening : Happening E} (kept : tree.Kept core)
    (silent : happening.silent) (beside : ∀ place, happening.occupies place = false)
    (turn : tree.OwnTurn happening core.trace) : tree.Kept (core.note happening) :=
  ⟨kept.traced.note silent, kept.lacks.note beside turn⟩

theorem Kept.exited (kept : tree.Kept core) : tree.Kept (core.exited place) := by
  have noted : tree.Traced (core.note (.exited place)) := kept.traced.note trivial
  exact ⟨noted.same rfl rfl, kept.lacks.exited⟩

/-- The entries of a row that has arrived. -/
theorem entries_lacking (inside : place.node < tree.size)
    (declared : row ∈ (tree.node place.node).transitions)
    (external : row.internal_transition = false)
    (apart : ¬ (row.in_state.composite = true ∧ row.out_state.composite = true)) :
    Triple (fun core => (core.view.state place).ident = row.out_state.ident ∧
        tree.Lacking (fun outer _ => False ∨ outer = place) core)
      (tree.entries place row output) (fun _ => tree.Lacking fun _ _ => False)
      fun _ core => (core.view.state place).ident = row.out_state.ident ∧
        tree.Lacking (fun _ inner => False ∨
          tree.Under place row.out_state.ident inner) core := by
  have acts : Within Acts (action_calls
      ((tree.node place.node).hooks .entry row.out_state.ident)
      (if row.target_has_data then [output] else [])) := acts_acting.action_calls _ _
  apply Triple.seq ((acts.triple fun acts started => ?_).conseq (fun _ => id)
    (fun _ _ => id) fun _ _ ends => ⟨ends.1, ends.2.beneath ends.1⟩)
  · intro _
    unfold given
    split
    · have stays : Within (tree.Stays place.node) (tree.composite_entry place) :=
        (stays_entering place.node).enter_children _ fun _ _ => tree.owner_lt_child
      have held : Triple
          (fun core : Core E => (core.view.state place).ident = row.out_state.ident)
          (tree.composite_entry place)
          (fun _ core => (core.view.state place).ident = row.out_state.ident)
          fun _ core => (core.view.state place).ident = row.out_state.ident :=
        stays.triple fun moved held =>
          (congrArg StateValue.ident (moved place (Nat.le_refl _)).1).trans held
      have walk := @enter_children_lacking _ tree place (fun _ _ => False)
        row.out_state.ident tree.size inside (Nat.le_add_right _ _)
      apply (held.both walk).conseq
      · exact fun _ started => ⟨started.1, started⟩
      · exact fun _ _ ends => ends.2
      · exact fun _ _ => id
    · rename_i plain
      apply Triple.returns
      intro core started
      apply started.2.weaken
      rintro outer inner nests (none | rfl)
      · exact none
      · have owned := nests.1
        rw [started.1] at owned
        have target : row.out_state.composite = true := by
          rw [tree.out_composite _ inside row declared external, owned]
          rfl
        cases source : row.in_state.composite with
        | true => exact apart ⟨source, target⟩
        | false =>
          rw [source, target] at plain
          exact absurd rfl plain
  · exact ⟨(congrArg StateValue.ident (congrFun acts.2.1 place)).trans started.1,
      started.2.acts acts⟩

/-- A row that arrives leaves nothing lacking, unless its entries fail over slots that
have been used. -/
theorem arrive_kept (inside : place.node < tree.size)
    (listed : row ∈ tree.rows place row.in_state.ident)
    (external : row.internal_transition = false)
    (apart : ¬ (row.in_state.composite = true ∧ row.out_state.composite = true))
    (begun : Running cause place row core) (left : core.view.exit_skip place = true)
    (kept : tree.Kept core)
    (failing : Throughout tree.FailsUnused
      (final (tree.arrive cause place row output) core).trace) :
    tree.Kept (final (tree.arrive cause place row output) core) := by
  have traced : tree.Traced (final (tree.arrive cause place row output) core) := by
    have steps : Steps False tree.toTables fun core core' : Core E =>
        tree.Traced core → tree.Traced core' := tree.traced_steps False
    exact steps.arrive inside listed external output begun left kept.traced
  refine ⟨traced, ?_⟩
  have started : ((tree.arrived cause place row output core).view.state place).ident =
      row.out_state.ident := by
    rw [arrived_view, View.skip_state, View.replace_state, Function.update_self]
  have entries := @entries_lacking _ tree place row output inside
    (Tables.mem_rows listed).1 external apart
    (tree.arrived cause place row output core) ⟨started, kept.lacks.arrived⟩
  unfold final at traced failing ⊢
  rw [tree.arrive_run] at traced failing ⊢
  unfold marking marked at traced failing ⊢
  cases ran : tree.entries place row output
      (tree.arrived cause place row output core) with
  | ok value last =>
    rw [ran] at entries
    exact entries
  | error fault last =>
    rw [ran] at entries traced failing
    obtain ⟨held, lacks⟩ := entries
    have unused := failing.1
    have shown : tree.replayed place last.trace = row.out_state.ident :=
      (traced.states place).symm.trans held
    have noted := @Lacking.note _ _ _ _ (.unentered place) lacks (fun _ => rfl) trivial
    refine ⟨fun outer inner nests => ?_, noted.turns, noted.outset⟩
    left
    rcases noted.renewed outer inner nests with renewed | none | ⟨node, owned, within⟩
    · exact renewed
    · exact none.elim
    · have fresh := unused node (shown ▸ owned) inner within
      exact (Tables.Renewed.unused fresh).note rfl

variable {meets : Happening E → List (Happening E) → Prop}

/-- The exits of a row leave everything as it was. -/
theorem kept_exiting (weaker : ∀ core : Core E, ∀ place,
    Throughout meets (core.exited place).trace → Throughout meets core.trace) :
    Exiting tree.toTables (Upholds meets tree.Kept) where
  frame := Observing.upholds_frame
  world _ _ meeting := ⟨meeting, fun kept => kept.still rfl rfl⟩
  exits place core _ _ _ meeting := ⟨weaker core place meeting, Kept.exited⟩
  leaves _ place _ core _ _ _ meeting := ⟨weaker core place meeting, Kept.exited⟩

theorem change_kept (failures : ∀ happening past, meets happening past →
      tree.FailsUnused happening past) (inside : place.node < tree.size)
    (listed : row ∈ tree.rows place row.in_state.ident)
    (apart : row.internal_transition = false →
      ¬ (row.in_state.composite = true ∧ row.out_state.composite = true))
    (begun : Running cause place row core) :
    Upholds meets tree.Kept core (final (tree.change cause place row payload) core) := by
  have exiting := @kept_exiting _ tree meets fun _ _ meeting => meeting.2
  unfold Tables.change
  split
  · have items : Within (Upholds meets tree.Kept) (do
        let _ ← run_items (row.callback_args payload.state_data payload.event_data)
          row.items : Effect E Unit) :=
      Within.seq exiting.frame (exiting.run_items _ _)
        fun _ => Within.returns exiting.frame ()
    exact items.final core
  · rename_i internal
    simp only [Bool.not_eq_true] at internal
    apply leave_and_arrive exiting.toActing
    · exact exiting.leave payload internal begun
    · exact (underway_exiting tree.toTables).leave payload internal begun
    · exact fun core' => token_of_ok
    · intro output core' underway left meeting
      have longer := (longer_blind.moving.arrive cause place row output :
        Within Longer (tree.arrive cause place row output)).final core'
      obtain ⟨added, grown⟩ := longer
      refine ⟨?_, fun kept => ?_⟩
      · rw [← grown] at meeting
        exact meeting.before
      · exact arrive_kept inside listed internal (apart internal)
          (begun.underway underway) left kept (meeting.mono failures)

end Row

/-! ### Runs -/

theorem Entering.initial_entries {rel : Core E → Core E → Prop}
    (entering : tree.Entering (fun _ => True) rel)
    (starts : ∀ place core, rel core (core.note (.entered place))) :
    Within rel tree.initial_entries := by
  have alone (place : Slot) : Within rel (tree.initial_entry place) := by
    intro core
    have hooks := entering.action_calls
      ((tree.node place.node).hooks .entry (tree.initial place))
      (if (tree.node place.node).has_data (tree.initial place) then
        [(core.view.state place).data] else [])
    exact hooks.after entering.frame (starts place core)
  have nested (place : Slot) : Within rel (tree.composite_entry place) :=
    entering.enter_children _ fun _ _ _ => trivial
  unfold Tables.initial_entries
  split
  · exact Within.forM entering.frame fun place _ => alone place
  split
  · exact alone _
  split
  · apply Within.forM entering.frame
    exact fun place listed => entering.enter_slot listed trivial (nested place)
  · exact Within.seq entering.frame (alone _) fun _ => nested _

/-- While the initial configuration is entered no slot has been used. -/
theorem begun_unused {fact : Happening E → List (Happening E) → Prop}
    (enters : ∀ place record, (∀ inner, Unused inner record) →
      fact (.entered place) record)
    (resets : ∀ place record, fact (.reset place) record) (world : E.World) :
    (∀ place, Unused place (final tree.initial_entries (tree.new world)).trace) ∧
      Throughout fact (final tree.initial_entries (tree.new world)).trace := by
  have notes {happening : Happening E} {core : Core E}
      (beside : ∀ place, happening.uses place = false)
      (here : (∀ place, Unused place core.trace) → fact happening core.trace)
      (started : (∀ place, Unused place core.trace) ∧ Throughout fact core.trace) :
      (∀ place, Unused place (core.note happening).trace) ∧
        Throughout fact (core.note happening).trace := by
    refine ⟨fun place => ?_, here started.1, started.2⟩
    exact List.forall_mem_cons.mpr ⟨beside place, started.1 place⟩
  have entering : tree.Entering (fun _ => True) fun core core' : Core E =>
      (∀ place, Unused place core.trace) ∧ Throughout fact core.trace →
        (∀ place, Unused place core'.trace) ∧ Throughout fact core'.trace :=
    { frame := .carries
      world := fun _ _ => id
      down := fun _ _ => trivial
      opens := fun place core _ _ => notes (fun _ => rfl) (enters place core.trace)
      resets := fun place core _ _ => notes (fun _ => rfl) fun _ => resets place _ }
  apply (entering.initial_entries fun place core =>
    notes (fun _ => rfl) (enters place core.trace)).final (tree.new world)
  exact ⟨fun _ _ none => absurd none List.not_mem_nil, trivial⟩

/-- The entries of a new machine leave nothing lacking. -/
theorem begun_kept (world : E.World) :
    tree.Kept (final tree.initial_entries (tree.new world)) := by
  have traced : tree.Traced (final tree.initial_entries (tree.new world)) := by
    have steps : Steps False tree.toTables fun core core' : Core E =>
        tree.Traced core → tree.Traced core' := tree.traced_steps False
    exact steps.initial_entries (fun _ => rfl) ⟨fun _ => rfl, rfl⟩
  have turns := (@begun_unused _ tree tree.OwnTurn (fun _ _ _ => trivial)
    (fun _ _ => trivial) world).2
  obtain ⟨unused, outset⟩ := @begun_unused _ tree tree.Outset
    (fun place _ unused => .inr (.inl (replayed_unused (unused place))))
    (fun _ _ => trivial) world
  exact ⟨traced, fun _ inner _ => .inl (.unused (unused inner)), turns, outset⟩

theorem running_of_begins {cause : Cause} {row : StateTransition E} {index : Nat}
    {past : List (Happening E)}
    (begins : core.trace = .fired cause place row index core.view :: past) :
    Running cause place row core := by
  refine ⟨core.view, ?_, rfl⟩
  unfold fired_at
  rw [begins, List.findSome?_cons]
  simp [Happening.row_at]

theorem observing_kept (failures : ∀ happening past, meets happening past →
    tree.FailsUnused happening past) (apart : ∀ cause place row index before past,
      place.node < tree.size → row ∈ (tree.node place.node).transitions →
        meets (.fired cause place row index before) past →
          row.internal_transition = false →
            ¬ (row.in_state.composite = true ∧ row.out_state.composite = true)) :
    Observing tree meets tree.Kept where
  still := fun states _ trace kept => kept.still states trace
  noted _ happening around kept := by
    apply kept.note
    · cases happening <;> trivial
    · cases happening <;> first | exact fun _ => rfl | cases around
    · cases happening <;> trivial
  turn serial event place core kept := by
    refine @Kept.note _ _ _ (.turn serial event place core.view) kept trivial
      (fun _ => rfl) ?_
    intro outer nests
    exact (kept.lacks.renewed outer place nests).resolve_right id
  fired _ _ _ _ _ kept := kept.note trivial (fun _ => rfl) trivial
  change cause place row payload index past core placed listed begins meeting kept
      meeting' := by
    have running := running_of_begins begins
    rw [begins] at meeting
    have crossing := apart cause place row index core.view past placed.1
      (Tables.mem_rows listed).1 meeting.1
    exact (change_kept failures placed.1 listed crossing running meeting').2 kept
  fresh world := by
    refine ⟨⟨fun _ => rfl, rfl⟩, fun outer inner _ => .inl (.unused ?_), trivial, trivial⟩
    exact fun _ none => absurd none List.not_mem_nil
  begun world _ := begun_kept world

end Tree

/-- A root that goes to and fro between a state with a table and one without. -/
def revisited : Tree sample where
  size := 2
  node
    | 0 =>
        { scalar 0 [1]
            [{ in_state := nested 0, event := on 1, out_state := plain 1 },
             { in_state := plain 1, event := on 1, out_state := nested 0 }] with
          owner := 0, variant := Name.X, depth := 0 }
    | 1 =>
        { scalar 2 [3]
            [{ in_state := plain 2, event := on 0, out_state := plain 3 }] with
          owner := 0, variant := Name.state 0, depth := 1 }
    | _ => { scalar 4 [] [] with owner := 0, variant := Name.X, depth := 1 }
  size_pos := Nat.two_pos
  root_depth := by decide
  owner_lt := by decide
  depth_owner := by decide
  regions_pos := by decide
  variants := by decide
  in_composite := by decide
  out_composite := by decide

theorem revisited_uncrossed : revisited.Uncrossed := by
  unfold Tree.Uncrossed
  decide

/-- The table moves, and the root leaves it and enters it again. -/
def revisited_run : Core sample :=
  final (revisited.process_event 5 ⟨Name.event 1, ()⟩)
    (final (revisited.process_event 5 ⟨Name.event 1, ()⟩)
      (final (revisited.process_event 5 ⟨Name.event 0, ()⟩) (revisited.new ())))

theorem revisited_run_reached : Reaches revisited.toTables revisited_run :=
  (((@Reaches.new sample revisited.toTables ()).process_event 5
    ⟨Name.event 0, ()⟩).process_event 5 ⟨Name.event 1, ()⟩).process_event 5
      ⟨Name.event 1, ()⟩

/-- An entry does not fail. -/
def Happening.completes : Happening E → Bool
  | .unentered _ => false
  | _ => true

theorem fails_unused_of_completes {tree : Tree E} {record : List (Happening E)}
    (completes : Throughout (fun happening _ => happening.completes = true) record) :
    Throughout tree.FailsUnused record := by
  apply completes.mono
  intro happening past completes
  cases happening <;> trivial

end SmlRs.Macros
