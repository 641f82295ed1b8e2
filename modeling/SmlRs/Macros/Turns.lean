/-
Module: SmlRs.Macros.Turns
Purpose: What the record of a run says about the turns of its dispatches.
Trusted boundary: none
Main exports: Below, picked, Leaked, Sound, Good, Advances, Standing,
  dispatch_code_standing
-/
import SmlRs.Lib.Record
import SmlRs.Macros.Contract
import SmlRs.Macros.Selection

namespace SmlRs.Macros

open Lib

variable {E : Environment}

namespace Tables

variable (tree : Tables E)

/-- A table is nested in the region of a slot. A scalar table is one region. -/
def Below (node : Nat) (place : Slot) : Prop :=
  if (tree.node place.node).orthogonal then
    tree.tree_descendant_region node place.node = some place.region
  else tree.tree_is_descendant node place.node = true

/-- Slots whose turn is left out when a table nested in them has handled the
event: those of the root and those of orthogonal tables. -/
def Watchful (place : Slot) : Prop :=
  place.node = 0 ∨ (tree.node place.node).orthogonal = true

/-- The row that an event picks is the first one of its arm whose condition is
true. -/
def picked (place : Slot) (event : Event E) (view : View E) :
    Option (StateTransition E × Nat) :=
  tree.pick place (view.state place).data event.data view
    (tree.arm place event view)

/-- The past of a row that ran behind another one of its turn. -/
structure Leaked (serial : Nat) (place : Slot) (item : StateTransition E × Nat)
    (view : View E) (past : List (Happening E)) (event : Event E)
    (start : View E) (first : StateTransition E × Nat)
    (between rest : List (Happening E)) : Prop where
  past_eq : past = between ++
    .fired (.event serial) place first.1 first.2 start ::
      .turn serial event place start :: rest
  between_fired : ∀ happening ∈ between, ∀ other,
    happening.part = some (serial, other) →
      ∃ row index view, happening = .fired (.event serial) place row index view
  picks : tree.picked place event start = some first
  among : item ∈ tree.arm place event start
  leaks : tree.Leaks place (start.state place).data event.data view item true

/-- What is true of every happening, given those before it. -/
def Sound : Happening E → List (Happening E) → Prop
  | .turn serial _ place _, past =>
      (∀ earlier ∈ past, ∀ other, earlier.part = some (serial, other) →
        other ≠ place ∧ ¬ tree.Below place.node other) ∧
      (tree.Watchful place →
        ∀ other, .handled serial other ∈ past → ¬ tree.Below other.node place)
  | .fired (.event serial) place row index view, past =>
      (∃ event rest, past = .turn serial event place view :: rest ∧
        tree.picked place event view = some (row, index)) ∨
      ∃ event start first between rest,
        tree.Leaked serial place (row, index) view past event start first
          between rest
  | _, _ => True

/-- A turn of an event that picks a row. -/
def Picking : Happening E → Prop
  | .turn _ event place view => tree.picked place event view ≠ none
  | _ => False

/-- The row of a turn, right behind it. -/
def Fires : Happening E → Happening E → Prop
  | .fired (.event serial) place _ _ _, .turn serial' _ place' _ =>
      serial = serial' ∧ place = place'
  | _, _ => False

/-- The record of a machine is sound: dispatches are numbered, every entry is
justified by those before it, and a turn that picks a row runs it. -/
structure Good (core : Core E) : Prop where
  numbered : ∀ happening ∈ core.trace, ∀ serial place,
    happening.part = some (serial, place) → serial < core.serial
  sound : Throughout tree.Sound core.trace
  answered : Answered Fires tree.Picking core.trace

end Tables

/-- What was added to the record, as far as it is numbered, has numbers from one
on. -/
def Later (part : Happening E → Option (Nat × Slot)) (serial : Nat)
    (core core' : Core E) : Prop :=
  core.serial ≤ core'.serial ∧
    ∃ added, core'.trace = added ++ core.trace ∧
      ∀ happening ∈ added, ∀ number place,
        part happening = some (number, place) → serial ≤ number

namespace Later

variable {part : Happening E → Option (Nat × Slot)} {serial number : Nat}
  {core core' core'' : Core E}

theorem refl : Later part serial core core :=
  ⟨Nat.le_refl _, [], rfl, by simp⟩

theorem trans (first : Later part serial core core')
    (second : Later part serial core' core'') :
    Later part serial core core'' := by
  obtain ⟨counted, added, record, parts⟩ := first
  obtain ⟨counted', added', record', parts'⟩ := second
  refine ⟨Nat.le_trans counted counted', added' ++ added, ?_, ?_⟩
  · rw [record', record, List.append_assoc]
  · intro happening among
    rcases List.mem_append.mp among with later | earlier
    · exact parts' happening later
    · exact parts happening earlier

theorem lower (later : Later part number core core') (below : serial ≤ number) :
    Later part serial core core' := by
  obtain ⟨counted, added, record, parts⟩ := later
  refine ⟨counted, added, record, fun happening among number' place owned => ?_⟩
  exact Nat.le_trans below (parts happening among number' place owned)

theorem note {happening : Happening E}
    (owned : ∀ number place, part happening = some (number, place) →
      serial ≤ number) :
    Later part serial core (core.note happening) := by
  refine ⟨Nat.le_refl _, [happening], rfl, ?_⟩
  simpa using owned

end Later

/-- What was added to the record belongs to dispatches from a number on. -/
abbrev Since (serial : Nat) (core core' : Core E) : Prop :=
  Later Happening.part serial core core'

/-- A sound record stays sound and grows by later dispatches. -/
def Advances (tree : Tables E) (core core' : Core E) : Prop :=
  tree.Good core → tree.Good core' ∧ Since core.serial core core'

section Advances

variable {tree : Tables E} {core : Core E} {happening : Happening E}

theorem Tables.Good.note (good : tree.Good core) (apart : happening.part = none) :
    tree.Good (core.note happening) where
  numbered := by
    intro entry among serial place part
    rcases List.mem_cons.mp among with rfl | among
    · rw [apart] at part
      cases part
    · exact good.numbered entry among serial place part
  sound := by
    refine ⟨?_, good.sound⟩
    unfold Tables.Sound
    split
    · cases apart
    · cases apart
    · trivial
  answered := by
    refine good.answered.cons ?_
    unfold Tables.Picking
    split
    · cases apart
    · exact id

theorem advances_frame : Frame (Advances tree) where
  refl _ good := ⟨good, .refl⟩
  trans first second good := by
    obtain ⟨middle, since⟩ := first good
    obtain ⟨final, onward⟩ := second middle
    exact ⟨final, since.trans (onward.lower since.1)⟩

theorem advances_blind : Blind (Advances tree) where
  frame := advances_frame
  view core view good :=
    ⟨⟨good.numbered, good.sound, good.answered⟩,
      Nat.le_refl _, [], rfl, by simp⟩
  deferred core events good :=
    ⟨⟨good.numbered, good.sound, good.answered⟩,
      Nat.le_refl _, [], rfl, by simp⟩
  pending core events good :=
    ⟨⟨good.numbered, good.sound, good.answered⟩,
      Nat.le_refl _, [], rfl, by simp⟩
  notes core happening apart good := by
    refine ⟨good.note apart, .note ?_⟩
    simp [apart]

/-- The rows of completions and exceptions. -/
theorem advances_bodies {calls : Calls E}
    (nested : ∀ event, Within (Advances tree) (calls.process_event event))
    {cause : Cause} (apart : ∀ serial, cause ≠ .event serial) (place : Slot) :
    Bodies tree (Advances tree) calls cause place := by
  intro row _ payload index
  have outside (view : View E) :
      (Happening.fired cause place row index view).part = none := by
    cases cause with
    | event serial => exact absurd rfl (apart serial)
    | completion => rfl
    | exception serial => rfl
  refine Within.seq advances_frame (Within.gets advances_frame) fun core => ?_
  refine Within.seq advances_frame (advances_blind.noted (outside _))
    fun _ => ?_
  exact advances_blind.run_row nested cause place row payload

end Advances

/-! ### One turn -/

namespace Tables

variable (tree : Tables E)

/-- In the middle of a dispatch that began at `base`. -/
structure Underway (serial : Nat) (base core : Core E) : Prop where
  good : tree.Good core
  begun : serial < core.serial
  since : Since serial base core

/-- Between two turns of a dispatch: which slots may have had their turn, and
which may have handled the event. -/
structure Standing (serial : Nat) (base : Core E) (done handled : Slot → Prop)
    (core : Core E) : Prop extends tree.Underway serial base core where
  turns : ∀ happening ∈ core.trace, ∀ place,
    happening.part = some (serial, place) → done place
  handlers : ∀ place, .handled serial place ∈ core.trace → handled place

/-- In the middle of a turn, behind the row that it picked. -/
structure Ran (serial : Nat) (base : Core E) (place : Slot) (event : Event E)
    (start : View E) (rest : List (Happening E)) (core : Core E) : Prop extends
    tree.Underway serial base core where
  past : ∃ first between,
    core.trace = between ++ .fired (.event serial) place first.1 first.2 start ::
        .turn serial event place start :: rest ∧
      (∀ happening ∈ between, ∀ other,
        happening.part = some (serial, other) → ∃ row index view,
          happening = .fired (.event serial) place row index view) ∧
      tree.picked place event start = some first

section Turn

variable {tree} {serial : Nat} {base core core' : Core E} {place : Slot}
  {event : Event E} {start : View E} {rest : List (Happening E)}

theorem Underway.advance (underway : tree.Underway serial base core)
    (moved : Advances tree core core') : tree.Underway serial base core' where
  good := (moved underway.good).1
  begun := Nat.lt_of_lt_of_le underway.begun (moved underway.good).2.1
  since := underway.since.trans
    ((moved underway.good).2.lower (Nat.le_of_lt underway.begun))

theorem Ran.advance (ran : tree.Ran serial base place event start rest core)
    (moved : Advances tree core core') :
    tree.Ran serial base place event start rest core' where
  toUnderway := ran.toUnderway.advance moved
  past := by
    obtain ⟨first, between, record, fired, picks⟩ := ran.past
    obtain ⟨_, added, grown, parts⟩ := (moved ran.good).2
    refine ⟨first, added ++ between, by rw [grown, record]; simp, ?_, picks⟩
    intro happening among other part
    rcases List.mem_append.mp among with later | earlier
    · have beyond := parts happening later serial other part
      have begun := ran.begun
      omega
    · exact fired happening earlier other part

/-- A happening of the dispatch itself. -/
theorem Underway.note (underway : tree.Underway serial base core)
    {happening : Happening E} (part : happening.part = some (serial, place))
    (sound : tree.Sound happening core.trace)
    (answered : Answered Fires tree.Picking (happening :: core.trace)) :
    tree.Underway serial base (core.note happening) where
  good := by
    refine ⟨?_, ⟨sound, underway.good.sound⟩, answered⟩
    intro entry among number other owned
    cases among with
    | head =>
      rw [part] at owned
      cases owned
      exact underway.begun
    | tail _ among => exact underway.good.numbered entry among number other owned
  begun := underway.begun
  since := by
    refine underway.since.trans (.note fun number other owned => ?_)
    rw [part] at owned
    cases owned
    exact Nat.le_refl _

/-- A further row of the turn runs. -/
theorem Ran.fire (ran : tree.Ran serial base place event start rest core)
    {item : StateTransition E × Nat} (among : item ∈ tree.arm place event start)
    (leaks : tree.Leaks place (start.state place).data event.data core.view item
      true) :
    tree.Ran serial base place event start rest
      (core.note (.fired (.event serial) place item.1 item.2 core.view)) := by
  obtain ⟨first, between, record, fired, picks⟩ := ran.past
  have leaked := Leaked.mk record fired picks among leaks
  refine ⟨ran.toUnderway.note rfl (.inr ⟨_, _, _, _, _, leaked⟩)
    (ran.good.answered.cons id), first,
    .fired (.event serial) place item.1 item.2 core.view :: between, ?_, ?_,
    picks⟩
  · rw [Core.note_trace, record]
    rfl
  · intro happening inside other part
    cases inside with
    | head => exact ⟨_, _, _, rfl⟩
    | tail _ inside => exact fired happening inside other part

/-- The turn begins, and the row it picks runs. -/
theorem Underway.fire_first (underway : tree.Underway serial base core)
    (sound : tree.Sound (.turn serial event place core.view) core.trace)
    {first : StateTransition E × Nat}
    (picks : tree.picked place event core.view = some first) :
    tree.Ran serial base place event core.view core.trace
      ((core.note (.turn serial event place core.view)).note
        (.fired (.event serial) place first.1 first.2 core.view)) where
  good := by
    refine ⟨?_, ⟨.inl ⟨event, core.trace, rfl, picks⟩, sound,
      underway.good.sound⟩, ?_⟩
    · intro entry among number other part
      simp only [Core.note_trace, List.mem_cons] at among
      rcases among with rfl | rfl | among
      · cases part
        exact underway.begun
      · cases part
        exact underway.begun
      · exact underway.good.numbered entry among number other part
    · exact underway.good.answered.cons_cons ⟨rfl, rfl⟩ id
  begun := underway.begun
  since := by
    refine (underway.since.trans (.note ?_)).trans (.note ?_)
    · intro number other part
      cases part
      exact Nat.le_refl _
    · intro number other part
      cases part
      exact Nat.le_refl _
  past := ⟨first, [], rfl, by simp, picks⟩

section Rows

variable {calls : Calls E}
  (nested : ∀ event, Within (Advances tree) (calls.process_event event))

include nested

theorem row_body_ran (item : StateTransition E × Nat)
    (payload : Tables.Payload E) :
    Triple
      (fun core => tree.Ran serial base place event start rest
        (core.note (.fired (.event serial) place item.1 item.2 core.view)))
      (tree.row_body calls (.event serial) place item.1 payload item.2)
      (fun _ => tree.Ran serial base place event start rest)
      fun _ => tree.Ran serial base place event start rest := by
  intro core ran
  unfold row_body
  rw [get_bind_run]
  have body : Within (Advances tree)
      (tree.run_row calls (.event serial) place item.1 payload) :=
    advances_blind.run_row nested (.event serial) place item.1 payload
  exact body.triple (fun moved ran => ran.advance moved) _ ran

/-- The rows behind the one that ran are tried all the same. -/
theorem run_arm_ran {back : List (StateTransition E × Nat)}
    (inside : ∀ item ∈ back, item ∈ tree.arm place event start) :
    Triple (tree.Ran serial base place event start rest)
      (tree.run_arm calls (.event serial) place (start.state place).data
        event.data back true)
      (fun handled core =>
        handled = true ∧ tree.Ran serial base place event start rest core)
      fun _ => tree.Ran serial base place event start rest := by
  induction back with
  | nil => exact Triple.returns fun core ran => ⟨rfl, ran⟩
  | cons item back ih =>
    intro core ran
    have further := ih fun item among => inside item (by simp [among])
    rw [run_arm_cons]
    cases checked : tree.branch_condition place (start.state place).data
      event.data core.view item true with
    | error error => exact ran.advance (advances_blind.notes core _ rfl)
    | ok value =>
      cases value with
      | false => exact further core ran
      | true =>
        obtain ⟨_, ⟨clear, _⟩ | leaks⟩ := runs_iff.mp checked
        · cases clear
        · refine Triple.seq (row_body_ran nested item _) (fun _ => further) core ?_
          exact ran.fire (inside item (by simp)) leaks

/-- The row of a turn, and those behind it. -/
theorem rows_ran (first : StateTransition E × Nat) (payload : Tables.Payload E)
    {back : List (StateTransition E × Nat)}
    (inside : ∀ item ∈ back, item ∈ tree.arm place event start) :
    Triple
      (fun core => tree.Ran serial base place event start rest
        (core.note (.fired (.event serial) place first.1 first.2 core.view)))
      (tree.row_body calls (.event serial) place first.1 payload first.2 >>=
        fun _ => tree.run_arm calls (.event serial) place
          (start.state place).data event.data back true)
      (fun handled core =>
        handled = true ∧ tree.Ran serial base place event start rest core)
      fun _ => tree.Ran serial base place event start rest :=
  Triple.seq (row_body_ran nested first payload)
    fun _ => run_arm_ran nested inside

variable {done handled : Slot → Prop}

omit nested in
/-- A turn that picks no row leaves everything else as it is. -/
theorem Standing.idle (standing : tree.Standing serial base done handled core)
    (sound : tree.Sound (.turn serial event place core.view) core.trace)
    (idle : tree.picked place event core.view = none) :
    tree.Standing serial base (fun other => done other ∨ other = place) handled
      (core.note (.turn serial event place core.view)) where
  toUnderway :=
    standing.toUnderway.note rfl sound
      (standing.good.answered.cons fun calls => calls idle)
  turns := by
    intro happening among other part
    cases among with
    | head =>
      cases part
      exact .inr rfl
    | tail _ among => exact .inl (standing.turns happening among other part)
  handlers := by
    intro other among
    cases among with
    | tail _ among => exact standing.handlers other among

omit nested in
/-- A turn that has run a row is over. -/
theorem Standing.ran {before : Core E}
    (standing : tree.Standing serial base done handled before)
    (ran : tree.Ran serial base place event start before.trace core) :
    tree.Standing serial base (fun other => done other ∨ other = place)
      (fun other => handled other ∨ other = place)
      (core.note (.handled serial place)) := by
  obtain ⟨first, between, record, fired, _⟩ := ran.past
  refine ⟨ran.toUnderway.note rfl trivial (ran.good.answered.cons id), ?_, ?_⟩
  · intro happening among other part
    simp only [Core.note_trace, record, List.mem_cons, List.mem_append] at among
    rcases among with rfl | inner | rfl | rfl | earlier
    · cases part
      exact .inr rfl
    · obtain ⟨row, index, view, rfl⟩ := fired happening inner other part
      cases part
      exact .inr rfl
    · cases part
      exact .inr rfl
    · cases part
      exact .inr rfl
    · exact .inl (standing.turns happening earlier other part)
  · intro other among
    simp only [Core.note_trace, record, List.mem_cons, List.mem_append] at among
    rcases among with same | inner | differs | differs | earlier
    · cases same
      exact .inr rfl
    · obtain ⟨row, index, view, differs⟩ := fired _ inner other rfl
      cases differs
    · cases differs
    · cases differs
    · exact .inl (standing.handlers other earlier)

variable (serial base event) in
/-- One turn of a dispatch. -/
theorem dispatch_code_standing
    (free : ∀ other, done other → other ≠ place ∧ ¬ tree.Below place.node other)
    (watched : tree.Watchful place →
      ∀ other, handled other → ¬ tree.Below other.node place) :
    Triple (tree.Standing serial base done handled)
      (tree.dispatch_code calls serial place event)
      (fun value => tree.Standing serial base
        (fun other => done other ∨ other = place)
        fun other => handled other ∨ (value = true ∧ other = place))
      fun _ => tree.Underway serial base := by
  intro core standing
  have sound : tree.Sound (.turn serial event place core.view) core.trace := by
    constructor
    · intro earlier among other part
      exact free other (standing.turns earlier among other part)
    · intro watchful other among
      exact watched watchful other (standing.handlers other among)
  rw [dispatch_code_run]
  cases picks : tree.picked place event core.view with
  | none =>
    have idle := standing.idle sound picks
    have quiet : tree.pick place (core.view.state place).data event.data
      (core.note (.turn serial event place core.view)).view
      (tree.arm place event core.view) = none := picks
    rcases run_arm_of_pick_none quiet with ends | ⟨error, ends⟩
    · rw [ends]
      refine { idle with handlers := fun other among => ?_ }
      exact .inl (idle.handlers other among)
    · rw [ends]
      exact idle.toUnderway.advance (advances_blind.notes _ _ rfl)
  | some first =>
    have chosen : tree.pick place (core.view.state place).data event.data
      (core.note (.turn serial event place core.view)).view
      (tree.arm place event core.view) = some first := picks
    have ran := standing.toUnderway.fire_first sound picks
    obtain ⟨back, inside, ends⟩ := run_arm_of_pick_some chosen
    cases run : tree.run_arm calls (.event serial) place
        (core.view.state place).data event.data
        (tree.arm place event core.view) false
        (core.note (.turn serial event place core.view)) with
    | ok value core' =>
      obtain ⟨rfl, ran⟩ := (rows_ran nested first _ inside).ok ran (ends ▸ run)
      have after := standing.ran ran
      refine { after with handlers := fun other among => ?_ }
      rcases after.handlers other among with earlier | here
      · exact .inl earlier
      · exact .inr ⟨rfl, here⟩
    | error error core' =>
      have ran := (rows_ran nested first _ inside).error ran (ends ▸ run)
      exact ran.toUnderway

end Rows

end Turn

end Tables

end SmlRs.Macros
