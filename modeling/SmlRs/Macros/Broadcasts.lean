/-
Module: SmlRs.Macros.Broadcasts
Purpose: The turns of one dispatch follow each other with nothing of another event
  between them, in machines whose rows dispatch no events themselves.
Trusted boundary: none
Main exports: Adds, Beside, Lone, Unbroken, broadcast_unbroken
-/
import SmlRs.Macros.Dispatch
import SmlRs.Macros.Routing

namespace SmlRs.Macros

open Lib

variable {E : Environment}

/-! ### What is added to a record -/

/-- The record grows by happenings of a kind, and no dispatch begins. -/
def Adds (allowed : Happening E → Prop) (core core' : Core E) : Prop :=
  core'.serial = core.serial ∧
    ∃ added, core'.trace = added ++ core.trace ∧ ∀ happening ∈ added, allowed happening

section Adds

variable {allowed : Happening E → Prop} {core : Core E}

theorem adds_frame : Frame (Adds allowed) where
  refl core := by
    refine ⟨rfl, [], rfl, ?_⟩
    intro happening among
    exact absurd among List.not_mem_nil
  trans first second := by
    obtain ⟨counted, added, record, each⟩ := first
    obtain ⟨counted', added', record', each'⟩ := second
    refine ⟨counted'.trans counted, added' ++ added, ?_, ?_⟩
    · rw [record', record, List.append_assoc]
    · intro happening among
      rcases List.mem_append.mp among with later | earlier
      · exact each' happening later
      · exact each happening earlier

theorem adds_note {happening : Happening E} (allows : allowed happening) :
    Adds allowed core (core.note happening) := by
  refine ⟨rfl, [happening], rfl, ?_⟩
  intro other among
  rw [List.mem_singleton.mp among]
  exact allows

end Adds

/-- What a row notes, run for a cause, besides the events it dispatches. -/
def Happening.of_row (cause : Cause) : Happening E → Prop
  | .fired other .. | .raised other | .surfaced other _ => other = cause
  | .exited _ | .entered _ | .replaced .. | .reset _ | .log_state_change ..
  | .unentered _ | .queued .. | .put _ | .put_off _ | .released ..
  | .requeued .. => True
  | _ => False

/-! ### Rows that dispatch no events -/

/-- No row dispatches an event itself: the events it raises are queued, or there are
none. -/
def Tables.Lone (tree : Tables E) : Prop :=
  tree.async_queue = true ∨
    tree.has_deferred_events = false ∧
      ∀ place state, ∀ row ∈ tree.rows place state, row.process_events = []

section Rows

variable {tree : Tables E} {calls : Calls E} {cause : Cause} {place : Slot}
  {row : StateTransition E}

theorem adds_moving : Moving (Adds (Happening.of_row (E := E) cause)) where
  frame := adds_frame
  view core view := adds_frame.refl core
  moves core happening moves := by
    apply adds_note
    cases happening <;> trivial

/-- A note that a row makes. -/
theorem adds_noted {happening : Happening E} (own : happening.of_row cause) :
    Within (Adds (Happening.of_row cause)) (note happening) :=
  Within.modifies fun _ => adds_note own

theorem put_adds (event : Event E) :
    Within (Adds (Happening.of_row cause)) (tree.put event) := by
  refine Within.seq adds_frame ?_ fun _ => adds_noted trivial
  intro core
  unfold process
  rw [get_bind_run]
  by_cases room : core.pending.length < tree.capacity
  · rw [if_pos room]
    exact adds_frame.refl core
  · rw [if_neg room]
    exact adds_frame.refl core

theorem process_later_adds :
    Within (Adds (Happening.of_row cause)) (tree.process_later row) := by
  refine Within.seq adds_frame (Within.gets adds_frame) fun before => ?_
  refine recording_within adds_frame ?_ fun core => adds_note trivial
  exact Within.forM adds_frame fun event _ => put_adds event

theorem requeue_adds : Within (Adds (Happening.of_row cause)) tree.requeue := by
  refine Within.seq adds_frame (Within.gets adds_frame) fun before => ?_
  refine recording_within adds_frame ?_ fun core => adds_note trivial
  refine Within.forM adds_frame fun event _ => ?_
  refine Within.seq adds_frame (Within.modifies adds_frame.refl) fun _ => ?_
  exact Within.seq adds_frame (adds_noted trivial) fun _ => put_adds event

theorem defer_code_adds (payload : Tables.Payload E) :
    Within (Adds (Happening.of_row cause)) (tree.defer_code row payload) := by
  unfold Tables.defer_code
  split
  · refine Within.seq adds_frame ?_ fun _ => adds_noted trivial
    intro core
    unfold defer
    rw [get_bind_run]
    by_cases room : core.deferred.length < tree.capacity
    · rw [if_pos room]
      exact adds_frame.refl core
    · rw [if_neg room]
      exact adds_frame.refl core
  · exact Within.returns adds_frame _

/-- The events of a row that dispatches none itself. -/
theorem queue_work_adds (lone : tree.Lone) {state : E.Ident}
    (declared : row ∈ tree.rows place state) :
    Within (Adds (Happening.of_row cause)) (tree.queue_work calls row) := by
  unfold Tables.queue_work Tables.process_code Tables.drain_deferred
  obtain async | ⟨undeferred, unraised⟩ := lone
  · rw [if_pos async, if_pos async]
    refine Within.seq adds_frame process_later_adds fun _ => ?_
    split
    · exact requeue_adds
    · exact Within.returns adds_frame _
  · rw [undeferred]
    refine Within.seq adds_frame ?_ fun _ => Within.returns adds_frame _
    split
    · exact process_later_adds
    · unfold Tables.process_now
      rw [unraised place state row declared]
      exact Within.seq adds_frame (Within.returns adds_frame _)
        fun _ => adds_noted trivial

theorem row_body_adds (lone : tree.Lone) {state : E.Ident}
    (declared : row ∈ tree.rows place state) (payload : Tables.Payload E)
    (index : Nat) :
    Within (Adds (Happening.of_row cause))
      (tree.row_body calls cause place row payload index) := by
  refine Within.seq adds_frame (Within.gets adds_frame) fun core => ?_
  refine Within.seq adds_frame (adds_noted rfl) fun _ => ?_
  refine Within.seq adds_frame ?_ fun _ => ?_
  · exact marking_within adds_frame (adds_moving.change cause place row payload)
      fun _ core => adds_note rfl
  refine Within.seq adds_frame (defer_code_adds payload) fun _ => ?_
  exact marking_within adds_frame (queue_work_adds lone declared)
    fun _ core => adds_note rfl

end Rows

/-! ### One dispatch -/

/-- What belongs to the turns of a dispatch. -/
def Happening.belongs (serial : Nat) (event : Event E) : Happening E → Prop
  | .turn serial' event' _ _ => serial' = serial ∧ event' = event
  | .handled serial' _ => serial' = serial
  | happening => happening.of_row (.event serial)

theorem belongs_of_row {serial : Nat} {event : Event E} {happening : Happening E}
    (own : happening.of_row (.event serial)) : happening.belongs serial event := by
  cases happening <;> first | exact own | exact own.elim

/-- Behind an earlier turn of its dispatch, a turn is for the same event, and all that
has happened between the two belongs to the dispatch. -/
def Unbroken : Happening E → List (Happening E) → Prop
  | .turn serial event _ _, past =>
      ∀ between event' place' view' rest,
        past = between ++ .turn serial event' place' view' :: rest →
          event' = event ∧ ∀ happening ∈ between, happening.belongs serial event
  | _, _ => True

/-- A dispatch is not broken into, and no slot has two turns in it. -/
def Tables.InTurn (tree : Tables E) (happening : Happening E)
    (past : List (Happening E)) : Prop :=
  Unbroken happening past ∧ tree.Sound happening past

theorem unbroken_of_row {cause : Cause} {happening : Happening E}
    {past : List (Happening E)} (own : happening.of_row cause) :
    Unbroken happening past := by
  cases happening <;> trivial

/-- The turns of a record are numbered, and none of its dispatches is broken into. -/
structure Marshalled (core : Core E) : Prop where
  numbered : ∀ serial event place view,
    .turn serial event place view ∈ core.trace → serial < core.serial
  unbroken : Throughout Unbroken core.trace

/-- A note that is no turn. -/
theorem Marshalled.note {core : Core E} (marshalled : Marshalled core)
    {happening : Happening E}
    (other : ∀ serial event place view, happening ≠ .turn serial event place view) :
    Marshalled (core.note happening) where
  numbered serial event place view among := by
    cases among with
    | head => exact absurd rfl (other serial event place view)
    | tail _ among => exact marshalled.numbered serial event place view among
  unbroken := by
    refine ⟨?_, marshalled.unbroken⟩
    cases happening with
    | turn serial event place view => exact absurd rfl (other serial event place view)
    | _ => trivial

/-- What a row adds. -/
theorem Marshalled.adds {core core' : Core E} (marshalled : Marshalled core)
    {cause : Cause} (adds : Adds (Happening.of_row cause) core core') :
    Marshalled core' := by
  obtain ⟨counted, added, record, own⟩ := adds
  constructor
  · intro serial event place view among
    rw [record] at among
    rcases List.mem_append.mp among with later | earlier
    · exact (own _ later).elim
    · rw [counted]
      exact marshalled.numbered serial event place view earlier
  · rw [record]
    clear record
    induction added with
    | nil => exact marshalled.unbroken
    | cons newest added ih =>
      refine ⟨unbroken_of_row (own newest List.mem_cons_self), ih ?_⟩
      exact fun happening among => own happening (List.mem_cons_of_mem newest among)

/-- In the middle of the dispatch that began at `base`. -/
structure Halfway (base : Core E) (event : Event E) (core : Core E) : Prop extends
    Marshalled core where
  begun : base.serial < core.serial
  since : ∃ added, core.trace = added ++ base.trace ∧
    ∀ happening ∈ added, happening.belongs base.serial event

namespace Halfway

variable {base core core' : Core E} {event : Event E}

theorem adds (halfway : Halfway base event core)
    (adds : Adds (Happening.of_row (.event base.serial)) core core') :
    Halfway base event core' where
  toMarshalled := halfway.toMarshalled.adds adds
  begun := by
    rw [adds.1]
    exact halfway.begun
  since := by
    obtain ⟨_, added, record, own⟩ := adds
    obtain ⟨before, start, each⟩ := halfway.since
    refine ⟨added ++ before, ?_, ?_⟩
    · rw [record, start, List.append_assoc]
    · intro happening among
      rcases List.mem_append.mp among with later | earlier
      · exact belongs_of_row (own happening later)
      · exact each happening earlier

/-- One more note of the dispatch itself. -/
theorem note (halfway : Halfway base event core) {happening : Happening E}
    (belongs : happening.belongs base.serial event)
    (marshalled : Marshalled (core.note happening)) :
    Halfway base event (core.note happening) where
  toMarshalled := marshalled
  begun := halfway.begun
  since := by
    obtain ⟨added, record, each⟩ := halfway.since
    refine ⟨happening :: added, ?_, ?_⟩
    · rw [Core.note_trace, record, List.cons_append]
    · intro other among
      cases among with
      | head => exact belongs
      | tail _ among => exact each other among

/-- A turn begins: all earlier ones of its dispatch are behind `base`. -/
theorem turn (numbered : Marshalled base) (halfway : Halfway base event core)
    (place : Slot) :
    Halfway base event (core.note (.turn base.serial event place core.view)) := by
  refine halfway.note ⟨rfl, rfl⟩ ⟨?_, ?_, halfway.unbroken⟩
  · intro serial event' place' view among
    cases among with
    | head => exact halfway.begun
    | tail _ among => exact halfway.numbered serial event' place' view among
  · intro between event' place' view rest split
    obtain ⟨added, record, each⟩ := halfway.since
    rw [record] at split
    rcases List.append_eq_append_iff.mp split with
      ⟨middle, across, back⟩ | ⟨middle, across, back⟩
    · -- The earlier turn would be older than the dispatch.
      have among : .turn base.serial event' place' view ∈ base.trace := by
        rw [back]
        simp
      exact absurd (numbered.numbered _ _ _ _ among) (Nat.lt_irrefl _)
    · cases middle with
      | nil =>
        have among : .turn base.serial event' place' view ∈ base.trace := by
          rw [← List.nil_append base.trace, ← back]
          simp
        exact absurd (numbered.numbered _ _ _ _ among) (Nat.lt_irrefl _)
      | cons first middle =>
        obtain ⟨rfl, _⟩ := List.cons.inj back
        have own := each (.turn base.serial event' place' view) (by simp [across])
        refine ⟨own.2, fun happening among => each happening ?_⟩
        rw [across]
        exact List.mem_append_left _ among

end Halfway

/-! ### Whole runs -/

section Runs

variable {tree : Tree E}

theorem marshalled_moving :
    Moving fun core core' : Core E => Marshalled core → Marshalled core' where
  frame := Frame.carries
  view core view marshalled := ⟨marshalled.numbered, marshalled.unbroken⟩
  moves core happening moves marshalled := by
    apply marshalled.note
    rintro serial event place view rfl
    exact moves

theorem marshalled_quiet :
    Quiet fun core core' : Core E => Marshalled core → Marshalled core' where
  toActing := marshalled_moving.acting
  deferred core events marshalled := ⟨marshalled.numbered, marshalled.unbroken⟩
  pending core events marshalled := ⟨marshalled.numbered, marshalled.unbroken⟩
  outer core happening outside marshalled := by
    apply marshalled.note
    rintro serial event place view rfl
    exact outside

theorem marshalled_bodies (lone : tree.Lone) (calls : Calls E) (cause : Cause)
    (place : Slot) :
    Bodies tree.toTables (fun core core' => Marshalled core → Marshalled core') calls
      cause place := by
  intro row declared payload index
  refine (row_body_adds lone declared payload index).mono ?_
  exact fun core core' adds marshalled => marshalled.adds adds

/-- One dispatch. -/
theorem marshalled_dispatch (lone : tree.Lone) (calls : Calls E) (event : Event E)
    (core : Core E) (marshalled : Marshalled core) :
    Marshalled (final (tree.parent_dispatch calls core.serial event)
      { core with serial := core.serial + 1 }) := by
  have answers : Answers tree.toTables calls core.serial event
      (fun _ => Halfway core event) fun _ => Halfway core event := by
    intro place placed before
    refine @dispatch_code_triple _ _ _ _ _ _ (fun _ => Halfway core event) _ _
      ?_ ?_ ?_
    · intro handled
      refine ⟨?_, ?_⟩
      · intro row declared payload index
        exact (row_body_adds lone declared payload index).triple
          fun adds halfway => halfway.adds adds
      · exact fun core' error halfway => halfway.adds (adds_note rfl)
    · exact fun core' halfway => halfway.turn marshalled place
    · intro core' halfway
      refine halfway.note rfl (halfway.toMarshalled.note ?_)
      rintro serial event place view differs
      cases differs
  have start : Halfway core event { core with serial := core.serial + 1 } :=
    { numbered := fun serial event place view among =>
        Nat.lt_succ_of_lt (marshalled.numbered serial event place view among)
      unbroken := marshalled.unbroken
      begun := Nat.lt_succ_self _
      since := ⟨[], rfl, fun _ none => absurd none List.not_mem_nil⟩ }
  exact (answers.parent_dispatch.final start).toMarshalled

theorem marshalled_keeps (lone : tree.Lone) :
    Keeps tree.toTables fun core core' => Marshalled core → Marshalled core' where
  toQuiet := marshalled_quiet
  completion calls _ place _ := marshalled_bodies lone calls .completion place
  recover calls _ error site := by
    refine recover_walk_within Frame.carries ?_ ?_ error site
    · intro core marshalled
      refine @Marshalled.note _ { core with serial := core.serial + 1 }
        ⟨?_, marshalled.unbroken⟩ _ ?_
      · exact fun serial event place view among =>
          Nat.lt_succ_of_lt (marshalled.numbered serial event place view among)
      · rintro serial event place view differs
        cases differs
    · intro serial place error _
      refine exception_code_within marshalled_quiet
        (marshalled_bodies lone calls (.exception serial) place) ?_
      intro core marshalled
      apply marshalled.note
      rintro serial event place view differs
      cases differs
  dispatch calls _ event core := marshalled_dispatch lone calls event core

/-- In every run of a machine whose rows dispatch no events themselves, the turns of
an event follow each other: for the same event, at different slots, and with nothing
between them but what their rows do. -/
theorem broadcast_unbroken (lone : tree.Lone) {core : Core E}
    (reached : Reaches tree.toTables core) :
    Throughout tree.InTurn core.trace := by
  have marshalled := reached.invariant (marshalled_keeps lone)
    (fun kept => kept)
    (fun world => ⟨fun _ _ _ _ none => absurd none List.not_mem_nil, trivial⟩)
    fun world => marshalled_moving.initial_entries.final (tree.new world)
      ⟨fun _ _ _ _ none => absurd none List.not_mem_nil, trivial⟩
  have sound := reached.good.sound
  rw [throughout_iff] at sound ⊢
  intro after happening past split
  exact ⟨marshalled.unbroken.at split, sound after happening past split⟩

end Runs

/-! ### An event that one region raises before the other one has its turn -/

/-- Two regions. The row of the first one raises an event for both of them. -/
def tandem : Tree sample where
  size := 1
  node _ :=
    { owner := 0, variant := Name.X, depth := 0
      transitions :=
        [{ in_state := plain 0, event := on 0,
           process_events := [⟨Name.event 1, ()⟩], out_state := plain 1 },
         { in_state := plain 1, event := on 1, out_state := plain 0 },
         { in_state := plain 2, event := on 0, out_state := plain 3 },
         { in_state := plain 3, event := on 1, out_state := plain 2 }]
      regions := [⟨Name.state 0, [Name.state 0, .state 1]⟩,
        ⟨Name.state 2, [Name.state 2, .state 3]⟩] }
  async_queue := true
  size_pos := Nat.one_pos
  root_depth := by decide
  owner_lt := by decide
  depth_owner := by decide
  regions_pos := by decide
  variants := by decide
  in_composite := by decide
  out_composite := by decide

@[irreducible] def tandem_run : Core sample :=
  final (tandem.process_event 5 ⟨Name.event 0, ()⟩) (tandem.new ())

theorem tandem_run_reached : Reaches tandem.toTables tandem_run := by
  unfold tandem_run
  exact (@Reaches.new sample tandem.toTables ()).process_event 5 ⟨Name.event 0, ()⟩

theorem tandem_lone : tandem.toTables.Lone := .inl rfl

theorem broadcast_unbroken_tandem :
    Throughout tandem.InTurn tandem_run.trace :=
  broadcast_unbroken tandem_lone tandem_run_reached

end SmlRs.Macros
