/-
Module: SmlRs.Macros.Order
Purpose: The order in which the events of queue actions are dispatched and
  retried.
Trusted boundary: none
Main exports: put_offs, releases, Ordered, InOrder, Symmetric, Arranged,
  arranged_steady, in_order_iff
-/
import SmlRs.Macros.Routing
import SmlRs.Macros.Rules

namespace SmlRs.Macros

open Lib

variable {E : Environment}

/-! ### What the record says about the queues -/

/-- The events that were deferred, in their order. -/
def put_offs : List (Happening E) → List (Event E)
  | [] => []
  | .put_off event :: past => put_offs past ++ [event]
  | _ :: past => put_offs past

/-- The events that have left the deferred queue, in their order. -/
def releases : List (Happening E) → List (Event E)
  | [] => []
  | .released event _ :: past => releases past ++ [event]
  | _ :: past => releases past

/-- The events of a row are dispatched as they are declared, and those that are
moved to the pending queue are retried as they were deferred. -/
def Ordered : Happening E → Prop
  | .queued declared order => order <+: declared
  | .requeued deferred order => order <+: deferred
  | _ => True

instance [DecidableEq E.Data] (happening : Happening E) :
    Decidable (Ordered happening) :=
  match happening with
  | .queued declared order => inferInstanceAs (Decidable (order <+: declared))
  | .requeued deferred order => inferInstanceAs (Decidable (order <+: deferred))
  | .turn .. | .fired .. | .handled .. | .exited .. | .entered .. | .replaced ..
  | .reset .. | .log_state_change .. | .faulted .. | .recovered .. | .raised ..
  | .offered .. | .recovering .. | .surfaced .. | .unentered .. | .follow_up ..
  | .put .. | .put_off .. | .released .. | .dequeued .. | .failed =>
      inferInstanceAs (Decidable True)

/-- Queue actions have kept their order so far. -/
structure InOrder (core : Core E) : Prop where
  entries : ∀ happening ∈ core.trace, Ordered happening
  released : put_offs core.trace = releases core.trace ++ core.deferred

/-- The events that a row has put into the pending queue read the same in both
directions. -/
def Symmetric : Happening E → Prop
  | .queued events order | .requeued events order =>
      (events.take order.length).reverse = events.take order.length
  | _ => True

/-- What the code makes of the order of a list of events. -/
def Arranges (async : Bool) : Happening E → Prop
  | .queued declared order =>
      if async then order = (declared.take order.length).reverse
      else order <+: declared
  | .requeued deferred order =>
      async = true ∧ order = (deferred.take order.length).reverse
  | _ => True

/-- Every list of events so far has been arranged by the code of the machine,
and the deferred queue is first in, first out. -/
structure Arranged (async : Bool) (core : Core E) : Prop where
  entries : ∀ happening ∈ core.trace, Arranges async happening
  released : put_offs core.trace = releases core.trace ++ core.deferred

/-- Notes that say nothing about the order of events. -/
def Happening.orderly : Happening E → Prop
  | .queued .. | .requeued .. | .put_off _ | .released .. => False
  | _ => True

theorem Happening.orderly_of_moves {happening : Happening E}
    (moves : happening.moves) : happening.orderly := by
  cases happening <;> trivial

theorem logs_of_orderly {happening : Happening E} {past : List (Happening E)}
    (orderly : happening.orderly) :
    put_offs (happening :: past) = put_offs past ∧
      releases (happening :: past) = releases past := by
  cases happening <;> first | exact ⟨rfl, rfl⟩ | cases orderly

theorem arranges_of_orderly {async : Bool} {happening : Happening E}
    (orderly : happening.orderly) : Arranges async happening := by
  cases happening <;> trivial

namespace Arranged

variable {async : Bool} {core core' : Core E}

theorem orderly (arranged : Arranged async core) {happening : Happening E}
    (orderly : happening.orderly) : Arranged async (core.note happening) where
  entries := by
    intro entry among
    cases among with
    | head => exact arranges_of_orderly orderly
    | tail _ among => exact arranged.entries entry among
  released := by
    obtain ⟨puts, takes⟩ := @logs_of_orderly _ _ core.trace orderly
    rw [Core.note_trace, puts, takes]
    exact arranged.released

theorem arranges (arranged : Arranged async core) {happening : Happening E}
    (arranges : Arranges async happening)
    (puts : put_offs (happening :: core.trace) = put_offs core.trace)
    (takes : releases (happening :: core.trace) = releases core.trace) :
    Arranged async (core.note happening) where
  entries := by
    intro entry among
    cases among with
    | head => exact arranges
    | tail _ among => exact arranged.entries entry among
  released := by
    rw [Core.note_trace, puts, takes]
    exact arranged.released

theorem shifts (moved : Shifts core core') (arranged : Arranged async core) :
    Arranged async core' := by
  obtain ⟨deferred, _, _, added, grown, moves⟩ := moved
  have logs : put_offs (added ++ core.trace) = put_offs core.trace ∧
      releases (added ++ core.trace) = releases core.trace := by
    clear grown
    induction added with
    | nil => exact ⟨rfl, rfl⟩
    | cons happening added ih =>
      obtain ⟨puts, takes⟩ := ih fun entry among => moves entry (by simp [among])
      have orderly := Happening.orderly_of_moves (moves happening (by simp))
      obtain ⟨puts', takes'⟩ :=
        @logs_of_orderly _ _ (added ++ core.trace) orderly
      exact ⟨puts'.trans puts, takes'.trans takes⟩
  refine ⟨?_, ?_⟩
  · intro entry among
    rw [grown] at among
    rcases List.mem_append.mp among with later | earlier
    · exact arranges_of_orderly (Happening.orderly_of_moves (moves entry later))
    · exact arranged.entries entry earlier
  · rw [grown, logs.1, logs.2, deferred]
    exact arranged.released

end Arranged

/-! ### The queue code of rows -/

section Queues

variable {tree : Tables E} {calls : Calls E}

theorem defer_code_run {row : StateTransition E} {payload : Tables.Payload E}
    (defers : row.defer = true) (core : Core E) :
    tree.defer_code row payload core =
      if core.deferred.length < tree.capacity then
        .ok () ({ core with
          deferred := core.deferred ++
            [(⟨row.event.ident, payload.event_data⟩ : Event E)]
        }.note (.put_off ⟨row.event.ident, payload.event_data⟩))
      else .error .queue_full core := by
  unfold Tables.defer_code defer
  rw [if_pos defers, bind_run, get_bind_run]
  by_cases room : core.deferred.length < tree.capacity
  · rw [if_pos room, if_pos room]
    rfl
  · rw [if_neg room, if_neg room]
    rfl

/-- Putting events into the pending queue turns their order around. -/
theorem put_loop {inv : Core E → Prop}
    (puts : ∀ core event, inv core →
      inv ({ core with pending := event :: core.pending }.note (.put event)))
    (before events : List (Event E)) :
    Triple (fun core => inv core ∧ core.pending = before)
      (events.forM tree.put)
      (fun _ core => inv core ∧ core.pending = events.reverse ++ before)
      (fun _ core => inv core ∧ ∃ front, front <+: events ∧
        core.pending = front.reverse ++ before) := by
  refine @Triple.forM _ _ _ _ _ (fun front core =>
    inv core ∧ core.pending = front.reverse ++ before) _ ?_
  rintro front event back split core ⟨holds, waiting⟩
  rw [put_run]
  by_cases room : core.pending.length < tree.capacity
  · rw [if_pos room]
    refine ⟨puts core event holds, ?_⟩
    show event :: core.pending = _
    rw [waiting]
    simp
  · rw [if_neg room]
    exact ⟨holds, front, ⟨event :: back, split.symm⟩, waiting⟩

/-- What has been added to a queue in front of what it held. -/
theorem added_of_append {before core : Core E} {front : List (Event E)}
    (waiting : core.pending = front ++ before.pending) :
    Tables.added before core = front := by
  unfold Tables.added
  simp [waiting]

theorem take_of_prefix {α : Type} {front whole : List α}
    (begins : front <+: whole) : whole.take front.length = front :=
  (List.prefix_iff_eq_take.mp begins).symm

theorem process_later_arranged (async : tree.async_queue = true)
    (row : StateTransition E) :
    Triple (Arranged tree.async_queue) (tree.process_later row)
      (fun _ => Arranged tree.async_queue)
      fun _ => Arranged tree.async_queue := by
  refine Triple.reads fun before => ?_
  have puts (core : Core E) (event : Event E)
      (arranged : Arranged tree.async_queue core) :
      Arranged tree.async_queue
        ({ core with pending := event :: core.pending }.note (.put event)) := by
    have queued : Arranged tree.async_queue
        { core with pending := event :: core.pending } :=
      ⟨arranged.entries, arranged.released⟩
    exact queued.orderly trivial
  have recorded {core : Core E} {front : List (Event E)}
      (begins : front <+: row.process_events)
      (arranged : Arranged tree.async_queue core)
      (waiting : core.pending = front.reverse ++ before.pending) :
      Arranged tree.async_queue
        (core.note (.queued row.process_events (Tables.added before core))) := by
    rw [added_of_append waiting]
    refine arranged.arranges ?_ rfl rfl
    show if _ then _ else _
    rw [if_pos async, List.length_reverse, take_of_prefix begins]
  have loop := @put_loop _ tree _ puts before.pending row.process_events
  refine (Triple.seq (Triple.marked (loop.conseq (fun _ => id) (fun _ _ => id) ?_))
    fun _ => Triple.modifies ?_).strengthen ?_
  · rintro fault core ⟨arranged, front, begins, waiting⟩
    exact recorded begins arranged waiting
  · rintro core ⟨arranged, waiting⟩
    exact recorded (List.prefix_refl _) arranged waiting
  · rintro core ⟨rfl, arranged⟩
    exact ⟨arranged, rfl⟩

/-- One deferred event leaves the deferred queue. -/
theorem Arranged.release {async : Bool} {core : Core E} {event : Event E}
    {rest : List (Event E)} {view : View E} (arranged : Arranged async core)
    (waiting : core.deferred = event :: rest) :
    Arranged async
      ({ core with deferred := rest }.note (.released event view)) where
  entries := by
    intro entry among
    cases among with
    | head => trivial
    | tail _ among => exact arranged.entries entry among
  released := by
    show put_offs core.trace = (releases core.trace ++ [event]) ++ rest
    rw [arranged.released, waiting]
    simp

theorem requeue_arranged (async : tree.async_queue = true) :
    Triple (Arranged tree.async_queue) tree.requeue
      (fun _ => Arranged tree.async_queue)
      fun _ => Arranged tree.async_queue := by
  refine Triple.reads fun before => ?_
  have recorded {core : Core E} {front : List (Event E)}
      (begins : front <+: before.deferred)
      (arranged : Arranged tree.async_queue core)
      (waiting : core.pending = front.reverse ++ before.pending) :
      Arranged tree.async_queue
        (core.note (.requeued before.deferred (Tables.added before core))) := by
    rw [added_of_append waiting]
    refine arranged.arranges ⟨async, ?_⟩ rfl rfl
    rw [List.length_reverse, take_of_prefix begins]
  have loop := @Triple.forM _ _ _ (tree.requeue_one before.view)
    (fun _ core => Arranged tree.async_queue core ∧ ∃ front,
      front <+: before.deferred ∧ core.pending = front.reverse ++ before.pending)
    (fun front core => Arranged tree.async_queue core ∧
      before.deferred = front ++ core.deferred ∧
      core.pending = front.reverse ++ before.pending) before.deferred ?_
  · refine (Triple.seq (Triple.marked (loop.conseq (fun _ => id) (fun _ _ => id)
      ?_)) fun _ => Triple.modifies ?_).strengthen ?_
    · rintro fault core ⟨arranged, front, begins, waiting⟩
      exact recorded begins arranged waiting
    · rintro core ⟨arranged, _, waiting⟩
      exact recorded (List.prefix_refl _) arranged waiting
    · rintro core ⟨rfl, arranged⟩
      exact ⟨arranged, rfl, rfl⟩
  rintro front event back split core ⟨arranged, left, waiting⟩
  have held : core.deferred = event :: back := by
    rw [left] at split
    exact List.append_cancel_left split
  have released := @Arranged.release _ _ _ _ _ before.view arranged held
  by_cases room : core.pending.length < tree.capacity
  · have run : tree.requeue_one before.view event core = .ok ()
        ({ ({ core with deferred := back }.note (.released event before.view))
          with pending := event :: core.pending }.note (.put event)) := by
      rw [requeue_one_run, put_run, held]
      exact if_pos room
    rw [run]
    have queued : Arranged tree.async_queue
        { ({ core with deferred := back }.note (.released event before.view)) with
          pending := event :: core.pending } :=
      ⟨released.entries, released.released⟩
    refine ⟨queued.orderly trivial, ?_, ?_⟩
    · show before.deferred = (front ++ [event]) ++ back
      rw [split]
      simp
    · show event :: core.pending = _
      rw [waiting]
      simp
  · have run : tree.requeue_one before.view event core = .error .queue_full
        ({ core with deferred := back }.note (.released event before.view)) := by
      rw [requeue_one_run, put_run, held]
      exact if_neg room
    rw [run]
    exact ⟨released, front, ⟨event :: back, split.symm⟩, waiting⟩

variable (kept : ∀ event, Triple (Arranged tree.async_queue)
  (calls.process_event event) (fun _ => Arranged tree.async_queue)
  fun _ => Arranged tree.async_queue)

include kept

theorem process_now_arranged (sync : tree.async_queue = false)
    (row : StateTransition E) :
    Triple (Arranged tree.async_queue) (Tables.process_now calls row)
      (fun _ => Arranged tree.async_queue)
      fun _ => Arranged tree.async_queue := by
  have recorded {core : Core E} {order : List (Event E)}
      (begins : order <+: row.process_events)
      (arranged : Arranged tree.async_queue core) :
      Arranged tree.async_queue
        (core.note (.queued row.process_events order)) := by
    refine arranged.arranges ?_ rfl rfl
    show if _ then _ else _
    rw [if_neg (by simp [sync])]
    exact begins
  refine Triple.seq ((@Triple.foldlM _ _ _ _ _ _
    (fun front order core => order = front ∧ Arranged tree.async_queue core) _
    ?_ []).strengthen fun _ arranged => ⟨rfl, arranged⟩) fun order => ?_
  · intro front event back order split
    refine Triple.reads fun core => ?_
    refine @Triple.changes _ _ _ _ _ _
      (fun core => order = front ∧ Arranged tree.async_queue core) _ _ ?_ ?_
    · rintro _ ⟨rfl, same, arranged⟩
      exact ⟨same, arranged.orderly trivial⟩
    rintro core ⟨rfl, arranged⟩
    refine Triple.seq (Triple.marked ((kept event).conseq (fun _ => id)
      (fun _ _ => id) ?_)) (fun _ => ?_) core arranged
    · intro fault core arranged
      exact recorded ⟨back, by simp [split]⟩ arranged
    · exact Triple.returns fun _ arranged => ⟨rfl, arranged⟩
  · refine Triple.modifies ?_
    rintro core ⟨rfl, arranged⟩
    exact recorded (List.prefix_refl _) arranged

theorem retry_arranged (fuel : Nat) :
    Triple (Arranged tree.async_queue) (Tables.retry calls fuel)
      (fun _ => Arranged tree.async_queue)
      fun _ => Arranged tree.async_queue := by
  have retrying : Retrying calls (Arranged tree.async_queue)
      fun _ => Arranged tree.async_queue :=
    { kept := kept
      released := fun core event rest arranged waiting =>
        @Arranged.release _ _ _ _ _ core.view arranged waiting
      absorbed := fun _ _ _ arranged => arranged
      diverged := fun _ arranged => arranged }
  exact (retrying.retry fuel).conseq (fun _ => id) (fun _ _ => id)
    fun _ _ returned => returned.2

theorem queue_work_arranged (row : StateTransition E) :
    Triple (Arranged tree.async_queue) (tree.queue_work calls row)
      (fun _ => Arranged tree.async_queue)
      fun _ => Arranged tree.async_queue := by
  refine Triple.seq (?_ : Triple _ _ (fun _ => Arranged tree.async_queue) _)
    fun _ => ?_
  · unfold Tables.process_code
    split
    · rename_i async
      exact process_later_arranged async row
    · rename_i sync
      exact process_now_arranged kept (by simpa using sync) row
  · unfold Tables.drain_deferred
    split
    · split
      · rename_i async
        exact requeue_arranged async
      · exact retry_arranged kept calls.fuel
    · exact Triple.returns fun _ arranged => arranged

omit kept in
theorem defer_code_arranged (row : StateTransition E)
    (payload : Tables.Payload E) :
    Triple (Arranged tree.async_queue) (tree.defer_code row payload)
      (fun _ => Arranged tree.async_queue)
      fun _ => Arranged tree.async_queue := by
  by_cases defers : row.defer = true
  · intro core arranged
    rw [defer_code_run defers]
    by_cases room : core.deferred.length < tree.capacity
    · rw [if_pos room]
      refine ⟨?_, ?_⟩
      · intro entry among
        cases among with
        | head => trivial
        | tail _ among => exact arranged.entries entry among
      · show put_offs core.trace ++ [_] = releases core.trace ++ (_ ++ [_])
        rw [arranged.released, List.append_assoc]
    · rw [if_neg room]
      exact arranged
  · unfold Tables.defer_code
    rw [if_neg defers]
    exact Triple.returns fun _ arranged => arranged

end Queues

/-! ### Whole runs -/

theorem arranged_steady (tree : Tables E) :
    Steady tree (Arranged tree.async_queue) where
  row calls kept cause place row payload index change within := by
    apply @fired_row_triple _ _ _ _ _ _ _ _ _ _ (Arranged tree.async_queue)
      (Arranged tree.async_queue)
    · exact fun core arranged => arranged.orderly trivial
    · refine (within.triple Arranged.shifts).conseq (fun _ => id) (fun _ _ => id)
        ?_
      exact fun fault core arranged => arranged.orderly trivial
    · exact defer_code_arranged row payload
    · refine (queue_work_arranged kept row).conseq (fun _ => id) (fun _ _ => id)
        ?_
      exact fun fault core arranged => arranged.orderly trivial
  note core happening plain arranged := by
    refine arranged.orderly ?_
    cases happening <;> trivial
  counted core arranged := ⟨arranged.entries, arranged.released⟩
  put core event arranged _ := ⟨arranged.entries, arranged.released⟩
  taken core event rest arranged _ := ⟨arranged.entries, arranged.released⟩

variable {machine : Machine E} {core : Core E}

theorem Machine.Reaches.arranged (reached : machine.Reaches core) :
    Arranged machine.tables.async_queue core :=
  (arranged_steady machine.tables).reached Arranged.shifts
    (fun _ => ⟨by simp [Machine.new, Tables.new], rfl⟩) reached

theorem ordered_of_symmetric {async : Bool} {happening : Happening E}
    (arranges : Arranges async happening)
    (symmetric : async = true → Symmetric happening) : Ordered happening := by
  cases happening with
  | queued declared order =>
    cases async with
    | false => exact arranges
    | true =>
      have turned : order = (declared.take order.length).reverse := arranges
      rw [symmetric rfl] at turned
      exact turned ▸ List.take_prefix _ _
  | requeued deferred order =>
    obtain ⟨rfl, turned⟩ := arranges
    rw [symmetric rfl] at turned
    exact turned ▸ List.take_prefix _ _
  | _ => trivial

theorem symmetric_of_ordered {happening : Happening E}
    (arranges : Arranges true happening) (ordered : Ordered happening) :
    Symmetric happening := by
  cases happening with
  | queued declared order =>
    have turned : order = (declared.take order.length).reverse := arranges
    show (declared.take order.length).reverse = declared.take order.length
    rw [← turned, take_of_prefix ordered]
  | requeued deferred order =>
    have turned := arranges.2
    show (deferred.take order.length).reverse = deferred.take order.length
    rw [← turned, take_of_prefix ordered]
  | _ => trivial

/-- In every run, queue actions keep their order exactly when the machine is
synchronous or the lists of events it has put into its pending queue read the
same in both directions. -/
theorem in_order_iff (reached : machine.Reaches core) :
    InOrder core ↔ (machine.tables.async_queue = true →
      ∀ happening ∈ core.trace, Symmetric happening) := by
  have arranged := reached.arranged
  constructor
  · intro in_order async happening among
    have arranges := arranged.entries happening among
    rw [async] at arranges
    exact symmetric_of_ordered arranges (in_order.entries happening among)
  · intro symmetric
    refine ⟨fun happening among => ?_, arranged.released⟩
    exact ordered_of_symmetric (arranged.entries happening among)
      fun async => symmetric async happening among

/-! ### An asynchronous machine -/

/-- A row that asks for two events, and rows for both of them. -/
def relay : Flat sample where
  table := scalar 0 [1]
    [{ in_state := plain 0, event := on 0,
       process_events := [⟨Name.event 1, ()⟩, ⟨Name.event 2, ()⟩],
       out_state := plain 1 },
     { in_state := plain 1, event := on 1, out_state := plain 1,
       internal_transition := true },
     { in_state := plain 1, event := on 2, out_state := plain 1,
       internal_transition := true }]
  async_queue := true

def relay_run : Core sample :=
  final ((Machine.flat relay).process_event 5 ⟨Name.event 0, ()⟩)
    ((Machine.flat relay).new ())

theorem relay_run_reached : (Machine.flat relay).Reaches relay_run :=
  (@Machine.Reaches.new sample (.flat relay) ()).process_event 5
    ⟨Name.event 0, ()⟩

instance : DecidableEq sample.Data := inferInstanceAs (DecidableEq Unit)

theorem relay_run_turned :
    (Machine.flat relay).Reaches relay_run ∧ ¬ InOrder relay_run := by
  refine ⟨relay_run_reached, fun in_order => ?_⟩
  have turned : ¬ ∀ happening ∈ relay_run.trace, Ordered happening := by
    decide +kernel
  exact turned in_order.entries

theorem in_order_iff_relay :
    InOrder relay_run ↔ ((Machine.flat relay).tables.async_queue = true →
      ∀ happening ∈ relay_run.trace, Symmetric happening) :=
  in_order_iff relay_run_reached

end SmlRs.Macros
