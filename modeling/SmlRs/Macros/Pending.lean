/-
Module: SmlRs.Macros.Pending
Purpose: What a call of an asynchronous machine leaves in the pending queue.
Trusted boundary: none
Main exports: waiting, Last, Counts, counts_conduct, run_pending_emptied,
  emptied_iff_last
-/
import SmlRs.Macros.Routing
import SmlRs.Macros.Rules

namespace SmlRs.Macros

open Lib

variable {E : Environment}

/-! ### The record of the pending queue -/

/-- The events that wait behind the one that has left the queue last: those that
waited when it left, and those that rows have put in front of them since. -/
def waiting : List (Happening E) → List (Event E)
  | [] => []
  | .dequeued _ rest _ :: _ => rest
  | .put event :: past => event :: waiting past
  | _ :: past => waiting past

/-- Where the dispatch of an event from the queue fails, no events wait behind
it. -/
def Last : Happening E → List (Happening E) → Prop
  | .failed, past => waiting past = []
  | _, _ => True

/-- Notes that say nothing about the pending queue. -/
def Happening.elsewhere : Happening E → Prop
  | .put _ | .dequeued .. | .failed => False
  | _ => True

/-- What a call has recorded about the queue. -/
def Counts (base : List (Happening E)) (core : Core E) : Prop :=
  ∃ added, core.trace = added ++ base ∧ Throughout Last added ∧
    waiting added = core.pending

section Counts

variable {base : List (Happening E)} {core core' : Core E}
  {happening : Happening E}

theorem waiting_of_elsewhere {past : List (Happening E)}
    (elsewhere : happening.elsewhere) :
    waiting (happening :: past) = waiting past := by
  cases happening <;> first | rfl | cases elsewhere

theorem last_of_elsewhere {past : List (Happening E)}
    (elsewhere : happening.elsewhere) : Last happening past := by
  cases happening <;> trivial

theorem Counts.note (counts : Counts base core)
    (elsewhere : happening.elsewhere) : Counts base (core.note happening) := by
  obtain ⟨added, grown, last, waits⟩ := counts
  refine ⟨happening :: added, ?_, ⟨last_of_elsewhere elsewhere, last⟩, ?_⟩
  · rw [Core.note_trace, grown]
    rfl
  · rw [waiting_of_elsewhere elsewhere]
    exact waits

theorem Counts.put (counts : Counts base core) (event : Event E) :
    Counts base
      ({ core with pending := event :: core.pending }.note (.put event)) := by
  obtain ⟨added, grown, last, waits⟩ := counts
  refine ⟨.put event :: added, ?_, ⟨trivial, last⟩, ?_⟩
  · show .put event :: core.trace = _
    rw [grown]
    rfl
  · show event :: waiting added = event :: core.pending
    rw [waits]

theorem Counts.shifts (counts : Counts base core) (moved : Shifts core core') :
    Counts base core' := by
  obtain ⟨_, pending, _, news, grown, moves⟩ := moved
  obtain ⟨added, before, last, waits⟩ := counts
  refine ⟨news ++ added, by rw [grown, before, List.append_assoc], ?_⟩
  rw [pending, ← waits]
  clear grown
  induction news with
  | nil => exact ⟨last, rfl⟩
  | cons happening news ih =>
    obtain ⟨rest, same⟩ := ih fun entry among => moves entry (by simp [among])
    have moving := moves happening (by simp)
    have elsewhere : happening.elsewhere := by
      cases happening <;> trivial
    refine ⟨⟨last_of_elsewhere elsewhere, rest⟩, ?_⟩
    rw [List.cons_append, waiting_of_elsewhere elsewhere]
    exact same

end Counts

/-! ### One event -/

theorem counts_shelving (base : List (Happening E)) :
    Shelving (Counts base) where
  deferred _ _ counts := counts
  put _ event counts := counts.put event
  noted core happening shelves counts := by
    refine counts.note ?_
    cases happening <;> trivial

/-- The terms of the record. -/
def counts_terms (base : List (Happening E)) : Terms E where
  calm := Counts base
  risen _ := Counts base
  walking _ _ := Counts base
  out _ := Counts base

/-- The rows of an asynchronous machine dispatch no events. -/
theorem counts_conduct {tree : Tables E} (async : tree.async_queue = true) :
    Conduct tree (fun _ => True) (counts_terms (E := E)) where
  row calls _ base cause handled place row payload index change within _ := by
    have body : Triple (Counts base)
        (tree.fired_row calls cause place row payload index change)
        (fun _ => Counts base) fun _ => Counts base := by
      apply fired_row_triple
      · exact fun core counts => counts.note trivial
      · refine (within.triple fun moved (counts : Counts base _) =>
          counts.shifts moved).conseq (fun _ => id) (fun _ _ => id) ?_
        exact fun fault core counts => counts.note trivial
      · refine defer_code_triple (fun core events counts => counts) ?_
          fun core counts => counts
        exact fun core event counts => counts.note trivial
      · refine ((counts_shelving base).queue_work async row).conseq
          (fun _ => id) (fun _ _ => id) ?_
        exact fun fault core full => full.2.note trivial
    cases cause <;> exact body
  guard base cause handled error core before := by
    cases cause <;> exact Counts.note before trivial
  rests _ _ counts := counts
  noted base happening core framing counts := by
    refine Counts.note counts ?_
    cases happening <;> trivial
  settled base happening core framing counts := by
    refine Counts.note counts ?_
    cases happening <;> trivial
  counted _ _ counts := counts
  faulted _ _ _ _ counts := Counts.note counts trivial
  uncaught _ _ _ _ counts := counts
  offered base _ _ core _ _ counts := by
    have counted : Counts base { core with serial := core.serial + 1 } := counts
    exact counted.note trivial
  asked _ _ _ _ _ _ counts := Counts.note counts trivial
  missed _ _ _ _ _ _ counts := counts
  recovered _ _ _ counts := counts
  returned _ _ _ _ _ counts := counts

/-! ### Whole calls -/

section Calls

variable {machine : Machine E} {core : Core E}

/-- What a call leaves behind that returns. -/
def Left (base : List (Happening E)) (core : Core E) : Prop :=
  ∃ added, core.trace = added ++ base ∧
    (core.pending = [] ↔ Throughout Last added)

theorem run_pending_emptied (async : machine.tables.async_queue = true)
    (calls : Calls E) (fuel : Nat) (base : List (Happening E)) :
    Triple
      (fun core => ∃ added, core.trace = added ++ base ∧ Throughout Last added)
      (machine.run_pending calls fuel) (fun _ => Left base)
      fun fault core => fault = .diverged ∨ Left base core := by
  induction fuel with
  | zero =>
    intro core _
    cases machine with
    | flat code => exact .inl rfl
    | tree code => exact .inl rfl
  | succ fuel ih =>
    rintro core ⟨added, grown, last⟩
    rw [Machine.run_pending_succ]
    cases waits : core.pending with
    | nil => exact ⟨added, grown, fun _ => last, fun _ => waits⟩
    | cons event rest =>
      have taken : Counts base ({ core with pending := rest }.note
          (.dequeued event rest core.view)) := by
        refine ⟨.dequeued event rest core.view :: added, ?_, ⟨trivial, last⟩, rfl⟩
        show .dequeued event rest core.view :: core.trace = _
        rw [grown]
        rfl
      have dispatched : Triple (Counts base)
          (marking (fun _ => .failed) (machine.run_event calls event))
          (fun _ => Counts base)
          fun fault core => fault = .diverged ∨ Left base core := by
        apply Triple.marked
        have run := @Conduct.every_event _ _ _ _ _ (counts_conduct async) calls
          trivial base (fun _ _ _ counts => counts) event
        refine run.conseq (fun _ => id) (fun _ _ => id) ?_
        rintro fault core ⟨added, grown, last, waits⟩
        refine .inr ⟨.failed :: added, ?_, ?_⟩
        · rw [Core.note_trace, grown]
          rfl
        · show core.pending = [] ↔ waiting added = [] ∧ Throughout Last added
          rw [waits]
          exact ⟨fun empty => ⟨empty, last⟩, fun both => both.1⟩
      refine Triple.seq dispatched (fun _ => ih.strengthen ?_) _ taken
      rintro core ⟨added, grown, last, _⟩
      exact ⟨added, grown, last⟩

/-- A call of an asynchronous machine that returns leaves the pending queue
empty exactly when there was room for its event, or none was needed, and no
dispatch of an event from the queue has failed with others behind it. -/
theorem emptied_iff_last (async : machine.tables.async_queue = true)
    (core : Core E) (fuel : Nat) (event : Event E)
    (ends : returns (machine.process_event fuel event) core = true) :
    (final (machine.process_event fuel event) core).pending = [] ↔
      (core.pending = [] ∨
        core.pending.length < machine.tables.capacity) ∧
      Throughout Last
        (news core (final (machine.process_event fuel event) core)) := by
  cases fuel with
  | zero =>
    cases machine with
    | flat code => cases ends
    | tree code => cases ends
  | succ fuel =>
    have run := Machine.process_event_async async fuel event
    by_cases room : core.pending.length < machine.tables.capacity
    · have start : machine.process_event (fuel + 1) event core =
          machine.run_pending ⟨machine.process_event fuel, fuel⟩ fuel
            { core with pending := event :: core.pending } := by
        rw [run, bind_run]
        unfold process
        rw [get_bind_run, if_pos room]
        rfl
      have loop := run_pending_emptied async ⟨machine.process_event fuel, fuel⟩
        fuel core.trace { core with pending := event :: core.pending }
        ⟨[], rfl, trivial⟩
      rw [← start] at loop
      have left : Left core.trace
          (final (machine.process_event (fuel + 1) event) core) := by
        unfold returns at ends
        unfold final
        cases outcome : machine.process_event (fuel + 1) event core with
        | ok value core' =>
          rw [outcome] at loop
          exact loop
        | error fault core' =>
          rw [outcome] at loop ends
          rcases loop with rfl | left
          · cases ends
          · exact left
      obtain ⟨added, grown, emptied⟩ := left
      rw [news_of_append grown, emptied]
      exact ⟨fun last => ⟨.inr room, last⟩, fun both => both.2⟩
    · have full : final (machine.process_event (fuel + 1) event) core = core := by
        unfold final
        rw [run, bind_run]
        unfold process
        rw [get_bind_run, if_neg room]
        rfl
      rw [full, @news_of_append _ core core [] rfl]
      constructor
      · exact fun empty => ⟨.inl empty, trivial⟩
      · rintro ⟨empty | fits, _⟩
        · exact empty
        · exact absurd fits room

end Calls

/-! ### An event that is left behind -/

/-- A row that asks for two events. The last one leaves the queue first, and has
no row. -/
def strand : Flat sample where
  table := scalar 0 []
    [{ in_state := plain 0, event := on 0,
       process_events := [⟨Name.event 1, ()⟩, ⟨Name.event 2, ()⟩],
       out_state := plain 0, internal_transition := true },
     { in_state := plain 0, event := on 1, out_state := plain 0,
       internal_transition := true }]
  async_queue := true

theorem strand_async : (Machine.flat strand).tables.async_queue = true := rfl

def strand_run : Core sample :=
  final ((Machine.flat strand).process_event 5 ⟨Name.event 0, ()⟩)
    ((Machine.flat strand).new ())

theorem strand_returns :
    returns ((Machine.flat strand).process_event 5 ⟨Name.event 0, ()⟩)
      ((Machine.flat strand).new ()) = true := by
  decide +kernel

/-- The names of the events that have left the queue. -/
def taken (record : List (Happening E)) : List E.Ident :=
  record.filterMap fun
    | .dequeued event _ _ => some event.ident
    | _ => none

/-- The first event is left in the queue, and the next call dispatches it. -/
theorem strand_run_leaves :
    returns ((Machine.flat strand).process_event 5 ⟨Name.event 0, ()⟩)
        ((Machine.flat strand).new ()) = true ∧
      strand_run.pending.map (·.ident) = ([Name.event 1] : List sample.Ident) ∧
      taken (news strand_run
        (final ((Machine.flat strand).process_event 5 ⟨Name.event 1, ()⟩)
          strand_run)) = ([Name.event 1, Name.event 1] : List sample.Ident) :=
  ⟨strand_returns, by decide +kernel, by decide +kernel⟩

theorem emptied_iff_last_strand :
    (final ((Machine.flat strand).process_event 5 ⟨Name.event 0, ()⟩)
        ((Machine.flat strand).new ())).pending = [] ↔
      (((Machine.flat strand).new ()).pending = [] ∨
        ((Machine.flat strand).new ()).pending.length <
          (Machine.flat strand).tables.capacity) ∧
      Throughout Last (news ((Machine.flat strand).new ())
        (final ((Machine.flat strand).process_event 5 ⟨Name.event 0, ()⟩)
          ((Machine.flat strand).new ()))) :=
  emptied_iff_last strand_async ((Machine.flat strand).new ()) 5
    ⟨Name.event 0, ()⟩ strand_returns

end SmlRs.Macros
