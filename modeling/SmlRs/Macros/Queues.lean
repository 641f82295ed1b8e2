/-
Module: SmlRs.Macros.Queues
Purpose: What has to be shown of the queue code of a row, whether its events are
  dispatched at once or put into the pending queue.
Trusted boundary: none
Main exports: Shifts, Recorded, fired_row, fired_row_triple, Queueing,
  Queueing.queue_work, Shelving, Shelving.queue_work
-/
import SmlRs.Macros.Reach

namespace SmlRs.Macros

open Lib

variable {E : Environment}

/-! ### What a core has recorded -/

/-- What a core has recorded since a call began. -/
def Recorded (base : List (Happening E)) (holds : List (Happening E) → Prop)
    (core : Core E) : Prop :=
  ∃ added, core.trace = added ++ base ∧ holds added

theorem Recorded.note {base : List (Happening E)}
    {holds holds' : List (Happening E) → Prop} {core : Core E}
    (recorded : Recorded base holds core) {happening : Happening E}
    (step : ∀ added, holds added → holds' (happening :: added)) :
    Recorded base holds' (core.note happening) := by
  obtain ⟨added, grown, held⟩ := recorded
  exact ⟨happening :: added, by rw [Core.note_trace, grown]; rfl,
    step added held⟩

theorem Recorded.mono {base : List (Happening E)}
    {holds holds' : List (Happening E) → Prop} {core : Core E}
    (recorded : Recorded base holds core)
    (weaker : ∀ added, holds added → holds' added) :
    Recorded base holds' core := by
  obtain ⟨added, grown, held⟩ := recorded
  exact ⟨added, grown, weaker added held⟩

/-! ### Rows -/

/-- Nothing but the view has changed, with the notes of state changes. -/
def Shifts (core core' : Core E) : Prop :=
  core'.deferred = core.deferred ∧ core'.pending = core.pending ∧
    core'.serial = core.serial ∧
    ∃ added, core'.trace = added ++ core.trace ∧
      ∀ happening ∈ added, happening.moves

theorem shifts_moving : Moving (Shifts (E := E)) where
  frame :=
    { refl := fun _ => ⟨rfl, rfl, rfl, [], rfl, by simp⟩
      trans := by
        rintro s t r ⟨deferred, pending, serial, added, grown, moves⟩
          ⟨deferred', pending', serial', added', grown', moves'⟩
        refine ⟨deferred'.trans deferred, pending'.trans pending,
          serial'.trans serial, added' ++ added, ?_, ?_⟩
        · rw [grown', grown, List.append_assoc]
        · intro happening among
          rcases List.mem_append.mp among with later | earlier
          · exact moves' happening later
          · exact moves happening earlier }
  view _ _ := ⟨rfl, rfl, rfl, [], rfl, by simp⟩
  moves _ happening moves := ⟨rfl, rfl, rfl, [happening], rfl, by simpa using moves⟩

/-- A row of whatever kind of machine. -/
def Tables.fired_row (tree : Tables E) (calls : Calls E) (cause : Cause)
    (place : Slot) (row : StateTransition E) (payload : Tables.Payload E)
    (index : Nat) (change : Effect E Unit) : Effect E Unit := do
  let core ← get
  note (.fired cause place row index core.view)
  tree.perform calls cause row payload change

section Row

variable {tree : Tables E} {calls : Calls E} {cause : Cause} {place : Slot}
  {row : StateTransition E} {payload : Tables.Payload E} {index : Nat}
  {change : Effect E Unit} {pre begun mid post : Core E → Prop}
  {fail : Fault E → Core E → Prop}

/-- A row is its change, the event that it defers, and the events behind it. -/
theorem fired_row_triple
    (fired : ∀ core, pre core →
      begun (core.note (.fired cause place row index core.view)))
    (changed : Triple begun change (fun _ => mid)
      fun fault core => fail fault (core.note (.raised cause)))
    (deferred : Triple mid (tree.defer_code row payload) (fun _ => mid) fail)
    (worked : Triple mid (tree.queue_work calls row) (fun _ => post)
      fun fault core => fail fault (core.note (.surfaced cause fault))) :
    Triple pre (tree.fired_row calls cause place row payload index change)
      (fun _ => post) fail := by
  refine Triple.reads fun core => ?_
  refine @Triple.changes _ _ _ _ _ _ begun _ _ ?_ ?_
  · rintro _ ⟨rfl, before⟩
    exact fired _ before
  refine Triple.seq (Triple.marked changed) fun _ => ?_
  exact Triple.seq deferred fun _ => Triple.marked worked

end Row

/-! ### Queue work -/

/-- Notes of the queue code of rows. -/
def Happening.queueing : Happening E → Prop
  | .follow_up .. | .queued .. | .put _ | .put_off _ | .released ..
  | .requeued .. => True
  | _ => False

/-- What holds before and behind the queue code of a row, and where it fails,
without regard to the events in the queues. -/
structure Queueing (calls : Calls E) (calm : Core E → Prop)
    (out : Fault E → Core E → Prop) : Prop where
  kept : ∀ event,
    Triple calm (calls.process_event event) (fun _ => calm) out
  events : ∀ core deferred pending, calm core →
    calm { core with deferred := deferred, pending := pending }
  noted : ∀ core happening, happening.queueing → calm core →
    calm (core.note happening)
  noted_out : ∀ fault core happening, happening.queueing → out fault core →
    out fault (core.note happening)
  absorbed : ∀ fault core, fault.rejection = true → out fault core → calm core
  returned : ∀ fault core, fault.error = none → calm core → out fault core

/-- A row may defer its event. -/
theorem defer_code_triple {tree : Tables E} {calm : Core E → Prop}
    {fail : Fault E → Core E → Prop} {row : StateTransition E}
    {payload : Tables.Payload E}
    (events : ∀ core events, calm core → calm { core with deferred := events })
    (noted : ∀ core event, calm core → calm (core.note (.put_off event)))
    (full : ∀ core, calm core → fail .queue_full core) :
    Triple calm (tree.defer_code row payload) (fun _ => calm) fail := by
  unfold Tables.defer_code
  split
  · apply Triple.seq (?_ : Triple _ _ (fun _ => calm) _)
    · intro _
      exact Triple.modifies fun core => noted core _
    intro core holds
    unfold defer
    rw [get_bind_run]
    by_cases room : core.deferred.length < tree.capacity
    · rw [if_pos room]
      exact events core _ holds
    · rw [if_neg room]
      exact full core holds
  · exact Triple.returns fun _ holds => holds

/-- What holds before and behind the retries of deferred events. -/
structure Retrying (calls : Calls E) (calm : Core E → Prop)
    (out : Fault E → Core E → Prop) : Prop where
  kept : ∀ event,
    Triple calm (calls.process_event event) (fun _ => calm) out
  released : ∀ core event rest, calm core → core.deferred = event :: rest →
    calm ({ core with deferred := rest }.note (.released event core.view))
  absorbed : ∀ fault core, fault.rejection = true → out fault core → calm core
  diverged : ∀ core, calm core → out .diverged core

/-- The retries do not end with a rejection. -/
theorem Retrying.retry {calls : Calls E} {calm : Core E → Prop}
    {out : Fault E → Core E → Prop} (retrying : Retrying calls calm out)
    (fuel : Nat) :
    Triple calm (Tables.retry calls fuel) (fun _ => calm)
      fun fault core => fault.rejection = false ∧ out fault core := by
  induction fuel with
  | zero => exact Triple.throws fun core calm => ⟨rfl, retrying.diverged core calm⟩
  | succ fuel ih =>
    intro core holds
    unfold Tables.retry
    rw [get_bind_run]
    cases waiting : core.deferred with
    | nil => exact holds
    | cons event rest =>
      dsimp only
      rw [set_bind_run]
      have released := retrying.released core event rest holds waiting
      refine Triple.attempted (retrying.kept event) (fun _ => ih) ?_ _ released
      intro fault
      cases fault with
      | invalid_event =>
        exact ih.strengthen fun core => retrying.absorbed _ core rfl
      | transitions_failed =>
        exact ih.strengthen fun core => retrying.absorbed _ core rfl
      | guard_failed _ => exact Triple.throws fun _ returned => ⟨rfl, returned⟩
      | action_failed _ => exact Triple.throws fun _ returned => ⟨rfl, returned⟩
      | queue_full => exact Triple.throws fun _ returned => ⟨rfl, returned⟩
      | diverged => exact Triple.throws fun _ returned => ⟨rfl, returned⟩

namespace Queueing

variable {tree : Tables E} {calls : Calls E} {calm : Core E → Prop}
  {out : Fault E → Core E → Prop} (queueing : Queueing calls calm out)

include queueing

theorem put (event : Event E) :
    Triple calm (tree.put event) (fun _ => calm) out := by
  apply Triple.seq (?_ : Triple _ _ (fun _ => calm) _)
  · intro _
    exact Triple.modifies fun core => queueing.noted core _ trivial
  intro core holds
  unfold process
  rw [get_bind_run]
  by_cases room : core.pending.length < tree.capacity
  · rw [if_pos room]
    exact queueing.events core core.deferred _ holds
  · rw [if_neg room]
    exact queueing.returned .queue_full core rfl holds

theorem defer_code (row : StateTransition E) (payload : Tables.Payload E) :
    Triple calm (tree.defer_code row payload) (fun _ => calm) out :=
  defer_code_triple (fun core events => queueing.events core events core.pending)
    (fun core event => queueing.noted core (.put_off event) trivial)
    fun core => queueing.returned .queue_full core rfl

theorem process_now (row : StateTransition E) :
    Triple calm (Tables.process_now calls row) (fun _ => calm) out := by
  apply Triple.seq (?_ : Triple _ _ (fun _ => calm) _)
  · intro order
    exact Triple.modifies fun core => queueing.noted core _ trivial
  refine @Triple.fold _ _ _ _ _ _ (fun _ => calm) _ (fun order event _ => ?_) []
  refine Triple.reads fun core => ?_
  refine @Triple.changes _ _ _ _ _ _ calm _ _ ?_ ?_
  · rintro _ ⟨rfl, holds⟩
    exact queueing.noted _ _ trivial holds
  apply Triple.seq (?_ : Triple _ _ (fun _ => calm) _)
  · intro _
    exact Triple.returns fun _ holds => holds
  apply Triple.marked
  refine (queueing.kept event).conseq (fun _ => id) (fun _ _ => id) ?_
  exact fun fault core => queueing.noted_out fault core _ trivial

theorem recording {record : Core E → Happening E} {effect : Effect E Unit}
    (queues : ∀ core, (record core).queueing)
    (triple : Triple calm effect (fun _ => calm) out) :
    Triple calm (recording record effect) (fun _ => calm) out := by
  apply Triple.seq (?_ : Triple _ _ (fun _ => calm) _)
  · intro _
    exact Triple.modifies fun core => queueing.noted core _ (queues core)
  apply Triple.marked
  refine triple.conseq (fun _ => id) (fun _ _ => id) ?_
  exact fun fault core => queueing.noted_out fault core _ (queues core)

theorem process_later (row : StateTransition E) :
    Triple calm (tree.process_later row) (fun _ => calm) out := by
  refine Triple.reads fun before => ?_
  refine Triple.strengthen ?_ fun _ start => start.2
  apply queueing.recording
  · exact fun _ => trivial
  · exact Triple.loop fun event _ => queueing.put event

theorem requeue : Triple calm tree.requeue (fun _ => calm) out := by
  refine Triple.reads fun before => ?_
  refine Triple.strengthen ?_ fun _ start => start.2
  apply queueing.recording
  · exact fun _ => trivial
  refine Triple.loop fun event _ => ?_
  refine Triple.changes
    (fun core => queueing.events core core.deferred.tail core.pending) ?_
  exact Triple.changes (fun core => queueing.noted core _ trivial)
    (queueing.put event)

theorem retrying : Retrying calls calm out where
  kept := queueing.kept
  released core _ rest calm _ :=
    queueing.noted _ _ trivial (queueing.events core rest core.pending calm)
  absorbed := queueing.absorbed
  diverged core := queueing.returned .diverged core rfl

theorem retry (fuel : Nat) :
    Triple calm (Tables.retry calls fuel) (fun _ => calm) out :=
  (queueing.retrying.retry fuel).conseq (fun _ => id) (fun _ _ => id)
    fun _ _ returned => returned.2

theorem queue_work (row : StateTransition E) :
    Triple calm (tree.queue_work calls row) (fun _ => calm) out := by
  apply Triple.seq (?_ : Triple _ _ (fun _ => calm) _)
  · intro _
    unfold Tables.drain_deferred
    split
    · split
      · exact queueing.requeue
      · exact queueing.retry calls.fuel
    · exact Triple.returns fun _ holds => holds
  · unfold Tables.process_code
    split
    · exact queueing.process_later row
    · exact queueing.process_now row

end Queueing

/-- Notes of the queue code of an asynchronous machine, except those of events
that are put into the pending queue. -/
def Happening.shelving : Happening E → Prop
  | .queued .. | .put_off _ | .released .. | .requeued .. => True
  | _ => False

section Put

variable {tree : Tables E}

theorem put_run (event : Event E) (core : Core E) :
    tree.put event core =
      if core.pending.length < tree.capacity then
        .ok () ({ core with pending := event :: core.pending }.note (.put event))
      else .error .queue_full core := by
  unfold Tables.put process
  rw [bind_run, get_bind_run]
  by_cases room : core.pending.length < tree.capacity
  · rw [if_pos room, if_pos room]
    rfl
  · rw [if_neg room, if_neg room]
    rfl

theorem requeue_one_run (view : View E) (event : Event E) (core : Core E) :
    tree.requeue_one view event core =
      tree.put event
        ({ core with deferred := core.deferred.tail }.note
          (.released event view)) := rfl

end Put

/-- What holds before and behind the queue code of a row of an asynchronous
machine, with regard to the pending queue. -/
structure Shelving (calm : Core E → Prop) : Prop where
  deferred : ∀ core events, calm core → calm { core with deferred := events }
  put : ∀ core event, calm core →
    calm ({ core with pending := event :: core.pending }.note (.put event))
  noted : ∀ core happening, happening.shelving → calm core →
    calm (core.note happening)

namespace Shelving

variable {tree : Tables E} {calls : Calls E} {calm : Core E → Prop}
  (shelving : Shelving calm)

/-- The only fault of this code: the pending queue is full. -/
def Full (calm : Core E → Prop) (fault : Fault E) (core : Core E) : Prop :=
  fault = .queue_full ∧ calm core

include shelving

theorem puts (event : Event E) :
    Triple calm (tree.put event) (fun _ => calm) (Full calm) := by
  intro core holds
  rw [put_run]
  by_cases room : core.pending.length < tree.capacity
  · rw [if_pos room]
    exact shelving.put core event holds
  · rw [if_neg room]
    exact ⟨rfl, holds⟩

theorem recording {record : Core E → Happening E} {effect : Effect E Unit}
    (shelves : ∀ core, (record core).shelving)
    (triple : Triple calm effect (fun _ => calm) (Full calm)) :
    Triple calm (recording record effect) (fun _ => calm) (Full calm) := by
  apply Triple.seq (?_ : Triple _ _ (fun _ => calm) _)
  · intro _
    exact Triple.modifies fun core => shelving.noted core _ (shelves core)
  apply Triple.marked
  refine triple.conseq (fun _ => id) (fun _ _ => id) ?_
  rintro fault core ⟨full, holds⟩
  exact ⟨full, shelving.noted core _ (shelves core) holds⟩

theorem process_later (row : StateTransition E) :
    Triple calm (tree.process_later row) (fun _ => calm) (Full calm) := by
  refine Triple.reads fun before => ?_
  refine Triple.strengthen ?_ fun _ start => start.2
  apply shelving.recording
  · exact fun _ => trivial
  · exact Triple.loop fun event _ => shelving.puts event

theorem requeue : Triple calm tree.requeue (fun _ => calm) (Full calm) := by
  refine Triple.reads fun before => ?_
  refine Triple.strengthen ?_ fun _ start => start.2
  apply shelving.recording
  · exact fun _ => trivial
  refine Triple.loop fun event _ => ?_
  refine Triple.changes (fun core => shelving.deferred core core.deferred.tail) ?_
  exact Triple.changes (fun core => shelving.noted core _ trivial)
    (shelving.puts event)

theorem queue_work (async : tree.async_queue = true) (row : StateTransition E) :
    Triple calm (tree.queue_work calls row) (fun _ => calm) (Full calm) := by
  apply Triple.seq (?_ : Triple _ _ (fun _ => calm) _)
  · intro _
    unfold Tables.drain_deferred
    rw [if_pos async]
    split
    · exact shelving.requeue
    · exact Triple.returns fun _ holds => holds
  · unfold Tables.process_code
    rw [if_pos async]
    exact shelving.process_later row

end Shelving

end SmlRs.Macros
