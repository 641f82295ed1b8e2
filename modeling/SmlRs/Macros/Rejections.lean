/-
Module: SmlRs.Macros.Rejections
Purpose: What has happened when an event is rejected.
Trusted boundary: none
Main exports: Unrejected, Heard, Heeded, Clean, Tame, Answer, tame_conduct,
  answers, clean_iff_heard
-/
import SmlRs.Macros.Routing
import SmlRs.Macros.Rules

namespace SmlRs.Macros

open Lib

variable {E : Environment}

/-! ### Clean calls -/

/-- The events of a row do not end with a rejection. -/
def Unrejected : Happening E → Prop
  | .surfaced _ fault => fault.rejection = false
  | _ => True

/-- A row has begun. -/
def Happening.fires : Happening E → Prop
  | .fired .. => True
  | _ => False

/-- No row has run, and the state is as it was. -/
structure Untouched (core core' : Core E) : Prop where
  idle : ∀ happening ∈ news core core', ¬ happening.fires
  view : core'.view = core.view
  deferred : core'.deferred = core.deferred
  pending : core'.pending = core.pending

/-- The queue work of no row is cut off by a rejection, and a rejection is only
returned where no row has run. -/
def Clean (core : Core E) : EStateM.Result (Fault E) (Core E) Unit → Prop
  | .ok _ core' => ∀ happening ∈ news core core', Unrejected happening
  | .error fault core' =>
      (∀ happening ∈ news core core', Unrejected happening) ∧
        (fault.rejection = true → Untouched core core')

/-- A row dispatches an event that the machine accepts. -/
def Heard (machine : Machine E) : Happening E → Prop
  | .follow_up event view => machine.accepts event view
  | _ => True

/-- An event that leaves the pending queue behind a row that has run is accepted
by the machine. -/
def Heeded (machine : Machine E) : Happening E → List (Happening E) → Prop
  | .dequeued event _ view, past =>
      (∃ earlier ∈ past, earlier.fires) → machine.accepts event view
  | _, _ => True

/-! ### The record of one event -/

/-- Notes that have nothing to do with rejections. -/
def Happening.ordinary : Happening E → Prop
  | .surfaced .. | .follow_up .. | .dequeued .. => False
  | _ => True

def Happening.dequeues : Happening E → Prop
  | .dequeued .. => True
  | _ => False

variable {machine : Machine E}

/-- A rejection comes out of a row exactly where an event has not been accepted,
and rows of an asynchronous machine dispatch none. -/
structure Tame (machine : Machine E) (added : List (Happening E)) : Prop where
  balanced : (∀ happening ∈ added, Unrejected happening) ↔
    ∀ happening ∈ added, Heard machine happening
  direct : machine.tables.async_queue = true →
    ∀ happening ∈ added, Heard machine happening
  apart : ∀ happening ∈ added, ¬ happening.dequeues

/-- The record of a row whose events have ended with a fault: a rejection is not
noted yet. -/
structure Owing (machine : Machine E) (fault : Fault E)
    (added : List (Happening E)) : Prop where
  rejects : fault.rejection = true
  sync : machine.tables.async_queue = false
  missed : ¬ ∀ happening ∈ added, Heard machine happening
  apart : ∀ happening ∈ added, ¬ happening.dequeues

/-- A rejection has been noted. -/
def Blamed (fault : Fault E) (added : List (Happening E)) : Prop :=
  fault.rejection = true → ¬ ∀ happening ∈ added, Unrejected happening

/-- A row has run. -/
def Fired (added : List (Happening E)) : Prop :=
  ∃ happening ∈ added, happening.fires

section Tame

variable {happening : Happening E} {added later : List (Happening E)}
  {fault : Fault E} {cause : Cause}

theorem Tame.nil : Tame machine [] :=
  ⟨by simp, by simp, by simp⟩

theorem Tame.cons (tame : Tame machine added) (unrejected : Unrejected happening)
    (heard : Heard machine happening) (apart : ¬ happening.dequeues) :
    Tame machine (happening :: added) where
  balanced := by
    have balanced := tame.balanced
    simp only [List.mem_cons, forall_eq_or_imp]
    rw [balanced]
    exact ⟨fun both => ⟨heard, both.2⟩, fun both => ⟨unrejected, both.2⟩⟩
  direct async := by
    simp only [List.mem_cons, forall_eq_or_imp]
    exact ⟨heard, tame.direct async⟩
  apart := by
    simp only [List.mem_cons, forall_eq_or_imp]
    exact ⟨apart, tame.apart⟩

theorem Tame.ordinary (tame : Tame machine added)
    (ordinary : happening.ordinary) : Tame machine (happening :: added) := by
  apply tame.cons
  · cases happening <;> trivial
  · cases happening <;> trivial
  · cases happening <;> first | exact id | cases ordinary

theorem Tame.append (tame : Tame machine added) (onward : Tame machine later) :
    Tame machine (later ++ added) where
  balanced := by
    simp only [List.mem_append, or_imp, forall_and]
    rw [tame.balanced, onward.balanced]
  direct async := by
    simp only [List.mem_append, or_imp, forall_and]
    exact ⟨onward.direct async, tame.direct async⟩
  apart := by
    simp only [List.mem_append, or_imp, forall_and]
    exact ⟨onward.apart, tame.apart⟩

theorem Tame.turns (tame : Tame machine added)
    (turns : ∀ happening ∈ later, happening.is_turn) :
    Tame machine (later ++ added) := by
  induction later with
  | nil => exact tame
  | cons happening later ih =>
    refine (ih fun entry among => turns entry (by simp [among])).ordinary ?_
    have is_turn := turns happening (by simp)
    cases happening <;> trivial

theorem Tame.moves (tame : Tame machine added)
    (moves : ∀ happening ∈ later, happening.moves) :
    Tame machine (later ++ added) := by
  induction later with
  | nil => exact tame
  | cons happening later ih =>
    refine (ih fun entry among => moves entry (by simp [among])).ordinary ?_
    have moving := moves happening (by simp)
    cases happening <;> trivial

theorem Fired.append (fired : Fired added) : Fired (later ++ added) := by
  obtain ⟨happening, among, fires⟩ := fired
  exact ⟨happening, by simp [among], fires⟩

theorem Fired.cons (fired : Fired added) : Fired (happening :: added) :=
  @Fired.append _ added [happening] fired

end Tame

/-! ### The terms of rejections -/

/-- Where a row has begun. -/
def Begun (machine : Machine E) (added : List (Happening E)) : Prop :=
  Tame machine added ∧ Fired added

/-- A fault is on its way. -/
def Rising (machine : Machine E) (base : List (Happening E)) (fault : Fault E)
    (core : Core E) : Prop :=
  fault = .diverged ∨
    Recorded base (fun added => Tame machine added ∧ Blamed fault added) core

/-- The terms on which a machine rejects events. -/
def rejects (machine : Machine E) (base : List (Happening E)) : Terms E where
  calm := Recorded base (Tame machine)
  ran := Recorded base (Begun machine)
  risen := Rising machine base
  walking _ handled := Recorded base fun added =>
    Tame machine added ∧ (handled = true → Fired added)
  out := Rising machine base

/-- How a call answers an event: with its own rejection exactly where the event
is not accepted. -/
def Answer (machine : Machine E) (event : Event E) (core : Core E) :
    EStateM.Result (Fault E) (Core E) Unit → Prop
  | .ok _ core' => machine.accepts event core.view ∧
      Recorded core.trace (Tame machine) core'
  | .error fault core' =>
      machine.accepts event core.view ∧ Rising machine core.trace fault core' ∨
        fault = .diverged ∨
        ¬ machine.accepts event core.view ∧ fault.rejection = true ∧
          Idle core core'

/-- The events that rows raise are answered, where rows raise any. -/
def Answering (machine : Machine E) (calls : Calls E) : Prop :=
  machine.tables.async_queue = false → ∀ event core,
    Answer machine event core (calls.process_event event core)

section Rows

variable {base : List (Happening E)} {core core' : Core E} {fault : Fault E}
  {calls : Calls E}

theorem Recorded.since {holds : List (Happening E) → Prop}
    {added : List (Happening E)} (grown : core.trace = added ++ base)
    (recorded : Recorded core.trace holds core') :
    ∃ later, core'.trace = (later ++ added) ++ base ∧ holds later := by
  obtain ⟨later, further, held⟩ := recorded
  exact ⟨later, by rw [further, grown, List.append_assoc], held⟩

theorem Idle.grown (idle : Idle core core') :
    ∃ later, core'.trace = later ++ core.trace ∧
      ∀ happening ∈ later, happening.is_turn := by
  obtain ⟨_, later, rfl, turns⟩ := idle
  exact ⟨later, rfl, turns⟩

theorem not_all_append {holds : Happening E → Prop}
    {later added : List (Happening E)}
    (broken : ¬ ∀ happening ∈ later, holds happening) :
    ¬ ∀ happening ∈ later ++ added, holds happening := fun all =>
  broken fun happening among => all happening (by simp [among])

/-- An event that a row dispatches behind its change. -/
theorem answer_begun (answering : Answering machine calls)
    (sync : machine.tables.async_queue = false) (event : Event E) :
    Triple (Recorded base (Begun machine)) (calls.process_event event)
      (fun _ => Recorded base (Begun machine))
      fun fault core => fault = .diverged ∨ Recorded base (Begun machine) core := by
  rintro core ⟨added, grown, tame, fired⟩
  have answer := answering sync event core
  cases run : calls.process_event event core with
  | ok value core' =>
    rw [run] at answer
    obtain ⟨later, further, onward⟩ := answer.2.since grown
    exact ⟨_, further, tame.append onward, fired.append⟩
  | error fault core' =>
    rw [run] at answer
    rcases answer with ⟨_, diverged | rising⟩ | diverged | ⟨_, _, idle⟩
    · exact .inl diverged
    · obtain ⟨later, further, onward, _⟩ := rising.since grown
      exact .inr ⟨_, further, tame.append onward, fired.append⟩
    · exact .inl diverged
    · obtain ⟨later, further, turns⟩ := idle.grown
      refine .inr ⟨later ++ added, ?_, tame.turns turns, fired.append⟩
      rw [further, grown, List.append_assoc]

/-- The fault of a row's events. -/
def Owes (machine : Machine E) (base : List (Happening E)) (fault : Fault E)
    (core : Core E) : Prop :=
  fault = .diverged ∨ Recorded base (fun added =>
    fault.rejection = false ∧ Tame machine added ∨ Owing machine fault added) core

theorem Owes.surface (owes : Owes machine base fault core) (cause : Cause) :
    Rising machine base fault (core.note (.surfaced cause fault)) := by
  rcases owes with diverged | recorded
  · exact .inl diverged
  refine .inr (recorded.note fun added held => ?_)
  rcases held with ⟨proper, tame⟩ | ⟨rejects, sync, missed, apart⟩
  · refine ⟨tame.cons proper trivial id, fun rejects => ?_⟩
    rw [proper] at rejects
    cases rejects
  have blamed : ¬ ∀ happening ∈ .surfaced cause fault :: added,
      Unrejected happening := by
    intro all
    have proper : fault.rejection = false :=
      all (.surfaced cause fault) (by simp)
    rw [rejects] at proper
    cases proper
  refine ⟨⟨?_, ?_, ?_⟩, fun _ => blamed⟩
  · refine iff_of_false blamed fun all => missed fun happening among => ?_
    exact all happening (by simp [among])
  · intro async
    rw [sync] at async
    cases async
  · simp only [List.mem_cons, forall_eq_or_imp]
    exact ⟨id, apart⟩

theorem Owes.note (owes : Owes machine base fault core) {happening : Happening E}
    (ordinary : happening.ordinary) :
    Owes machine base fault (core.note happening) := by
  rcases owes with diverged | recorded
  · exact .inl diverged
  refine .inr (recorded.note fun added held => ?_)
  rcases held with ⟨proper, tame⟩ | ⟨rejects, sync, missed, apart⟩
  · exact .inl ⟨proper, tame.ordinary ordinary⟩
  · refine .inr ⟨rejects, sync, ?_, ?_⟩
    · exact fun all => missed fun entry among => all entry (by simp [among])
    · simp only [List.mem_cons, forall_eq_or_imp]
      refine ⟨?_, apart⟩
      cases happening <;> first | exact id | cases ordinary

theorem process_now_owes (answering : Answering machine calls)
    (sync : machine.tables.async_queue = false) (row : StateTransition E) :
    Triple (Recorded base (Begun machine)) (Tables.process_now calls row)
      (fun _ => Recorded base (Begun machine)) (Owes machine base) := by
  apply Triple.seq
    (?_ : Triple _ _ (fun _ => Recorded base (Begun machine)) _)
  · intro order
    exact Triple.modifies fun core begun => begun.note fun _ held =>
      ⟨held.1.ordinary trivial, held.2.cons⟩
  refine @Triple.fold _ _ _ _ _ _ (fun _ => Recorded base (Begun machine)) _
    (fun order event _ => ?_) []
  refine Triple.reads fun before => ?_
  refine @Triple.changes _ _ _ _ _ _ (fun core => core.view = before.view ∧
    ∃ added, core.trace = (.follow_up event before.view :: added) ++ base ∧
      Begun machine added) _ _ ?_ ?_
  · rintro _ ⟨rfl, added, grown, begun⟩
    refine ⟨rfl, added, ?_, begun⟩
    rw [Core.note_trace, grown]
    rfl
  apply Triple.seq
    (?_ : Triple _ _ (fun _ => Recorded base (Begun machine)) _)
  · intro _
    exact Triple.returns fun _ begun => begun
  apply Triple.marked
  rintro core ⟨same, added, grown, tame, fired⟩
  have answer := answering sync event core
  have heard (accepted : machine.accepts event core.view) :
      Tame machine (.follow_up event before.view :: added) :=
    tame.cons trivial (same ▸ accepted) id
  cases run : calls.process_event event core with
  | ok value core' =>
    rw [run] at answer
    obtain ⟨later, further, onward⟩ := answer.2.since grown
    exact ⟨_, further, (heard answer.1).append onward, fired.cons.append⟩
  | error fault core' =>
    rw [run] at answer
    refine Owes.note ?_ trivial
    rcases answer with ⟨accepted, diverged | rising⟩ | diverged |
      ⟨refused, rejects, idle⟩
    · exact .inl diverged
    · obtain ⟨later, further, onward, blamed⟩ := rising.since grown
      refine .inr ⟨_, further, ?_⟩
      have whole := (heard accepted).append onward
      cases rejects : fault.rejection with
      | false => exact .inl ⟨rfl, whole⟩
      | true =>
        refine .inr ⟨rejects, sync, ?_, whole.apart⟩
        rw [← whole.balanced]
        exact not_all_append (blamed rejects)
    · exact .inl diverged
    · obtain ⟨later, further, turns⟩ := idle.grown
      refine .inr ⟨later ++ .follow_up event before.view :: added, ?_, .inr ?_⟩
      · rw [further, grown, List.append_assoc]
      · refine ⟨rejects, sync, fun all => refused ?_, ?_⟩
        · rw [same]
          exact all (.follow_up event before.view) (by simp)
        · simp only [List.mem_append, List.mem_cons, or_imp, forall_and,
            forall_eq]
          refine ⟨fun entry among => ?_, id, tame.apart⟩
          have is_turn := turns entry among
          cases entry <;> first | exact id | cases is_turn

theorem queue_work_owes (answering : Answering machine calls)
    (row : StateTransition E) :
    Triple (Recorded base (Begun machine)) (machine.tables.queue_work calls row)
      (fun _ => Recorded base (Begun machine)) (Owes machine base) := by
  have begun_note {core : Core E} {happening : Happening E}
      (begun : Recorded base (Begun machine) core)
      (ordinary : happening.ordinary) :
      Recorded base (Begun machine) (core.note happening) :=
    begun.note fun _ held => ⟨held.1.ordinary ordinary, held.2.cons⟩
  have proper {fault : Fault E} {core : Core E}
      (proper : fault.rejection = false)
      (begun : Recorded base (Begun machine) core) :
      Owes machine base fault core :=
    .inr (begun.mono fun _ held => .inl ⟨proper, held.1⟩)
  cases async : machine.tables.async_queue with
  | true =>
    have shelving : Shelving (Recorded base (Begun machine)) :=
      { deferred := fun _ _ begun => begun
        put := fun core event begun => by
          have queued : Recorded base (Begun machine)
              { core with pending := event :: core.pending } := begun
          exact begun_note queued trivial
        noted := fun core happening shelves begun => by
          refine begun_note begun ?_
          cases happening <;> trivial }
    refine (shelving.queue_work async row).conseq (fun _ => id) (fun _ _ => id) ?_
    rintro fault core ⟨rfl, begun⟩
    exact proper rfl begun
  | false =>
    apply Triple.seq
      (?_ : Triple _ _ (fun _ => Recorded base (Begun machine)) _)
    · intro _
      unfold Tables.drain_deferred
      rw [async]
      split
      · have retrying : Retrying calls (Recorded base (Begun machine))
            fun fault core => fault = .diverged ∨
              Recorded base (Begun machine) core :=
          { kept := answer_begun answering async
            released := fun core _ rest begun _ => by
              have taken : Recorded base (Begun machine)
                  { core with deferred := rest } := begun
              exact begun_note taken trivial
            absorbed := fun fault core rejects held => by
              rcases held with rfl | begun
              · cases rejects
              · exact begun
            diverged := fun _ _ => .inl rfl }
        refine (retrying.retry calls.fuel).conseq (fun _ => id) (fun _ _ => id) ?_
        rintro fault core ⟨unrejected, diverged | begun⟩
        · exact .inl diverged
        · exact proper unrejected begun
      · exact Triple.returns fun _ begun => begun
    · unfold Tables.process_code
      rw [async]
      exact process_now_owes answering async row

/-- A row, from the start of any turn. -/
theorem fired_row_rising (answering : Answering machine calls)
    {start : Core E → Prop}
    (begins : ∀ core, start core → Recorded base (Tame machine) core)
    (cause : Cause) (place : Slot) (row : StateTransition E)
    (payload : Tables.Payload E) (index : Nat) {change : Effect E Unit}
    (within : Within Shifts change) (failing : Failing change) :
    Triple start
      (machine.tables.fired_row calls cause place row payload index change)
      (fun _ => Recorded base (Begun machine)) (Rising machine base) := by
  have shifts {core core' : Core E} (moved : Shifts core core')
      (begun : Recorded base (Begun machine) core) :
      Recorded base (Begun machine) core' := by
    obtain ⟨_, _, _, later, further, moves⟩ := moved
    obtain ⟨added, grown, tame, fired⟩ := begun
    refine ⟨later ++ added, ?_, tame.moves moves, fired.append⟩
    rw [further, grown, List.append_assoc]
  have proper {fault : Fault E} {core : Core E} (happening : Happening E)
      (ordinary : happening.ordinary) (proper : fault.rejection = false)
      (begun : Recorded base (Begun machine) core) :
      Rising machine base fault (core.note happening) :=
    .inr (begun.note fun _ held => ⟨held.1.ordinary ordinary, fun rejects => by
      rw [proper] at rejects
      cases rejects⟩)
  apply @fired_row_triple _ _ _ _ _ _ _ _ _ _ (Recorded base (Begun machine))
    (Recorded base (Begun machine))
  · intro core starts
    exact (begins core starts).note fun _ tame =>
      ⟨tame.ordinary trivial, _, List.mem_cons_self, trivial⟩
  · refine (failing.within (within.triple shifts)).conseq (fun _ => id)
      (fun _ _ => id) ?_
    rintro fault core ⟨failed, begun⟩
    exact proper _ trivial (Fault.proper_of_error failed) begun
  · refine defer_code_triple (fun _ _ begun => begun) ?_ ?_
    · exact fun core event begun => begun.note fun _ held =>
        ⟨held.1.ordinary trivial, held.2.cons⟩
    · intro core begun
      exact .inr (begun.mono fun _ held => ⟨held.1, fun rejects => by
        cases rejects⟩)
  · refine (queue_work_owes answering row).conseq (fun _ => id)
      (fun _ _ => id) ?_
    exact fun fault core owes => owes.surface cause

end Rows

/-- The rows of a machine reject events on these terms. -/
theorem tame_conduct (machine : Machine E) :
    Conduct machine.tables (Answering machine) (rejects machine) where
  row calls answering base cause handled place row payload index change within
      failing := by
    have body {start : Core E → Prop}
        (begins : ∀ core, start core → Recorded base (Tame machine) core) :=
      fired_row_rising answering begins cause place row payload index within
        failing
    cases cause with
    | event serial => exact body fun _ => id
    | completion => exact body fun _ => id
    | exception serial =>
      refine (body fun _ walking => walking.mono fun _ held => held.1).conseq
        (fun _ => id) ?_ fun _ _ => id
      exact fun _ core begun => begun.mono fun _ held => ⟨held.1, fun _ => held.2⟩
  guard base cause handled error core before := by
    have tame : Recorded base (Tame machine) core := by
      cases cause with
      | exception serial => exact before.mono fun _ held => held.1
      | event serial => exact before
      | completion => exact before
    have rising : Rising machine base (.guard_failed error)
        (core.note (.raised cause)) :=
      .inr (tame.note fun _ held => ⟨held.ordinary trivial, fun rejects => by
        cases rejects⟩)
    cases cause <;> exact rising
  rests base core ran := ran.mono fun _ held => held.1
  noted base happening core framing calm := by
    refine calm.note fun _ tame => tame.ordinary ?_
    cases happening <;> trivial
  settled base happening core framing ran := by
    refine ran.note fun _ held => ⟨held.1.ordinary ?_, held.2.cons⟩
    cases happening <;> trivial
  counted _ _ calm := calm
  faulted base fault place core rising := by
    rcases rising with diverged | recorded
    · exact .inl diverged
    · exact .inr (recorded.note fun _ held => ⟨held.1.ordinary trivial,
        fun rejects all => held.2 rejects fun entry among =>
          all entry (by simp [among])⟩)
  uncaught _ _ _ _ rising := rising
  offered base fault error core failed _ rising := by
    rcases rising with rfl | recorded
    · cases failed
    · have counted : Recorded base
          (fun added => Tame machine added ∧ Blamed fault added)
          { core with serial := core.serial + 1 } := recorded
      exact counted.note fun _ held =>
        ⟨held.1.ordinary trivial, fun handled => by cases handled⟩
  asked _ _ _ _ _ _ walking :=
    walking.note fun _ held => ⟨held.1.ordinary trivial,
      fun handled => (held.2 handled).cons⟩
  missed _ _ fault _ _ failed walking :=
    .inr (walking.mono fun _ held => ⟨held.1, fun rejects => by
      rw [fault.proper_of_error (by simp [failed])] at rejects
      cases rejects⟩)
  recovered _ _ _ walking := walking.mono fun _ held => ⟨held.1, held.2 rfl⟩
  returned _ fault _ _ proper calm :=
    .inr (calm.mono fun _ tame => ⟨tame, fun rejects => by
      rw [proper] at rejects
      cases rejects⟩)

/-! ### Whole calls -/

section Calls

variable {base : List (Happening E)} {core core' : Core E}

/-- The events that were not accepted stand in the record. -/
def AllHeard (machine : Machine E) (added : List (Happening E)) : Prop :=
  (∀ happening ∈ added, Heard machine happening) ∧
    Throughout (Heeded machine) added

theorem Tame.heeded {added later : List (Happening E)}
    (apart : ∀ happening ∈ later, ¬ happening.dequeues) :
    Throughout (Heeded machine) (later ++ added) ↔
      Throughout (Heeded machine) added := by
  induction later with
  | nil => rfl
  | cons happening later ih =>
    rw [List.cons_append, throughout_cons,
      ih fun entry among => apart entry (by simp [among])]
    have away := apart happening (by simp)
    refine and_iff_right ?_
    cases happening <;> first | trivial | exact absurd trivial away

theorem Tame.all_heard {added : List (Happening E)}
    (tame : Tame machine added) :
    (∀ happening ∈ added, Unrejected happening) ↔ AllHeard machine added := by
  have heeded := @Tame.heeded _ machine [] added tame.apart
  rw [List.append_nil] at heeded
  rw [tame.balanced]
  exact ⟨fun heard => ⟨heard, heeded.mpr trivial⟩, fun both => both.1⟩

/-- Every event of a synchronous machine is answered. -/
theorem answers (sync : machine.tables.async_queue = false) (fuel : Nat)
    (event : Event E) (core : Core E) :
    Answer machine event core (machine.process_event fuel event core) := by
  induction fuel generalizing event core with
  | zero =>
    rw [Machine.process_event_zero]
    exact .inr (.inl rfl)
  | succ fuel ih =>
    rw [Machine.process_event_sync sync]
    have answering : Answering machine ⟨machine.process_event fuel, fuel⟩ :=
      fun _ => ih
    by_cases accepted : machine.accepts event core.view
    · have run := @Conduct.run_event _ _ _ _ _ (tame_conduct machine) _ answering
        core.trace event core ⟨[], rfl, .nil⟩ accepted core rfl
      cases outcome : machine.run_event ⟨machine.process_event fuel, fuel⟩ event
          core with
      | ok value core' =>
        rw [outcome] at run
        exact ⟨accepted, run.mono fun _ held => held.1⟩
      | error fault core' =>
        rw [outcome] at run
        exact .inl ⟨accepted, run⟩
    · obtain ⟨fault, core', run, rejects, idle⟩ :=
        @Machine.run_event_idle _ _ ⟨machine.process_event fuel, fuel⟩ _ _
          accepted
      rw [run]
      exact .inr (.inr ⟨accepted, rejects, idle⟩)

/-- How a call was, for a run that was not cut short. -/
def Verdict (machine : Machine E) (core : Core E)
    (result : EStateM.Result (Fault E) (Core E) Unit) : Prop :=
  match result with
  | .ok _ core' => Clean core result ↔ AllHeard machine (news core core')
  | .error fault core' => fault = .diverged ∨
      (Clean core result ↔ AllHeard machine (news core core'))

theorem turns_all_heard {added : List (Happening E)}
    (turns : ∀ happening ∈ added, happening.is_turn) :
    (∀ happening ∈ added, Unrejected happening) ∧ AllHeard machine added ∧
      ∀ happening ∈ added, ¬ happening.fires := by
  have tame := @Tame.turns _ machine [] added .nil turns
  rw [List.append_nil] at tame
  have proper : ∀ happening ∈ added, Unrejected happening := by
    intro happening among
    have is_turn := turns happening among
    cases happening <;> trivial
  refine ⟨proper, tame.all_heard.mp proper, fun happening among => ?_⟩
  have is_turn := turns happening among
  cases happening <;> first | exact id | cases is_turn

theorem sync_verdict (sync : machine.tables.async_queue = false) (fuel : Nat)
    (event : Event E) (core : Core E) :
    Verdict machine core (machine.process_event fuel event core) := by
  have answer := answers sync fuel event core
  cases run : machine.process_event fuel event core with
  | ok value core' =>
    rw [run] at answer
    obtain ⟨_, added, grown, tame⟩ := answer
    show (∀ happening ∈ news core core', Unrejected happening) ↔
      AllHeard machine (news core core')
    rw [news_of_append grown]
    exact tame.all_heard
  | error fault core' =>
    rw [run] at answer
    rcases answer with ⟨_, diverged | recorded⟩ | diverged | ⟨_, rejects, idle⟩
    · exact .inl diverged
    · obtain ⟨added, grown, tame, blamed⟩ := recorded
      refine .inr ?_
      show (∀ happening ∈ news core core', Unrejected happening) ∧
        (fault.rejection = true → Untouched core core') ↔
          AllHeard machine (news core core')
      rw [news_of_append grown, ← tame.all_heard]
      constructor
      · exact fun both => both.1
      · exact fun proper => ⟨proper, fun rejects =>
          absurd proper (blamed rejects)⟩
    · exact .inl diverged
    · obtain ⟨_, added, rfl, turns⟩ := idle
      obtain ⟨proper, heard, quiet⟩ := turns_all_heard turns
      refine .inr (iff_of_true ⟨?_, fun _ => ⟨?_, rfl, rfl, rfl⟩⟩ ?_)
      · rw [news_of_append rfl]
        exact proper
      · rw [news_of_append rfl]
        exact quiet
      · rw [news_of_append rfl]
        exact heard

/-- In the loop over the pending queue, behind a row that has run. -/
def Pumping (machine : Machine E) (added : List (Happening E)) : Prop :=
  (∀ happening ∈ added, Unrejected happening) ∧ AllHeard machine added ∧
    Fired added

/-- The loop has ended with a fault: with a rejection exactly where an event was
not accepted. -/
def Halted (machine : Machine E) (base : List (Happening E)) (fault : Fault E)
    (core : Core E) : Prop :=
  fault = .diverged ∨ Recorded base (fun added =>
    (∀ happening ∈ added, Unrejected happening) ∧ Fired added ∧
      (fault.rejection = false ↔ AllHeard machine added)) core

/-- An event from the queue that is accepted. -/
theorem pump_accepted (async : machine.tables.async_queue = true)
    {calls : Calls E} {event : Event E} {start : Core E}
    {added : List (Happening E)} (grown : start.trace = added ++ base)
    (proper : ∀ happening ∈ added, Unrejected happening)
    (heard : AllHeard machine added)
    (accepted : machine.accepts event start.view) :
    Triple (· = start)
      (marking (fun _ => .failed) (machine.run_event calls event))
      (fun _ => Recorded base (Pumping machine))
      fun fault core => fault.rejection = false ∧ (fault = .diverged ∨
        Recorded base (fun whole => (∀ happening ∈ whole, Unrejected happening) ∧
          AllHeard machine whole ∧ ∃ later, whole = later ++ added) core) := by
  have answering : Answering machine calls := fun sync => by
    rw [async] at sync
    cases sync
  have whole {later : List (Happening E)} (tame : Tame machine later) :
      (∀ happening ∈ later ++ added, Unrejected happening) ∧
        AllHeard machine (later ++ added) := by
    have direct := tame.direct async
    have inner := tame.balanced.mpr direct
    simp only [AllHeard, List.mem_append, or_imp, forall_and]
    exact ⟨⟨inner, proper⟩, ⟨direct, heard.1⟩,
      (Tame.heeded tame.apart).mpr heard.2⟩
  apply Triple.marked
  refine (@Conduct.run_event _ _ _ _ _ (tame_conduct machine) _ answering
    start.trace event start ⟨[], rfl, .nil⟩ accepted).conseq (fun _ => id) ?_ ?_
  · intro _ core ran
    obtain ⟨later, further, tame, fired⟩ := ran.since grown
    refine ⟨_, further, (whole tame).1, (whole tame).2, ?_⟩
    obtain ⟨happening, among, fires⟩ := fired
    exact ⟨happening, by simp [among], fires⟩
  · rintro fault core (rfl | recorded)
    · exact ⟨rfl, .inl rfl⟩
    · obtain ⟨later, further, tame, blamed⟩ := recorded.since grown
      have unrejected : fault.rejection = false := by
        by_contra rejects
        exact blamed (by simpa using rejects)
          (tame.balanced.mpr (tame.direct async))
      have failed : Tame machine (.failed :: later) := by
        apply tame.ordinary
        trivial
      refine ⟨unrejected, .inr ⟨(.failed :: later) ++ added, ?_,
        (whole failed).1, (whole failed).2, _, rfl⟩⟩
      rw [Core.note_trace, further]
      rfl

/-- An event from the queue that is not accepted, behind a row that has run. -/
theorem pump_refused {calls : Calls E} {event : Event E} {rest : List (Event E)}
    {view : View E} {start : Core E} {added : List (Happening E)}
    (grown : start.trace = (.dequeued event rest view :: added) ++ base)
    (same : start.view = view)
    (proper : ∀ happening ∈ added, Unrejected happening) (fired : Fired added)
    (refused : ¬ machine.accepts event start.view) :
    Triple (· = start)
      (marking (fun _ => .failed) (machine.run_event calls event))
      (fun _ => Recorded base (Pumping machine)) (Halted machine base) := by
  obtain ⟨fault, core', run, rejects, idle⟩ :=
    @Machine.run_event_idle _ _ calls _ _ refused
  apply Triple.marked
  rintro _ rfl
  rw [run]
  obtain ⟨turns, further, idle⟩ := idle.grown
  refine .inr ⟨(.failed :: turns) ++ .dequeued event rest view :: added, ?_, ?_,
    ?_, ?_⟩
  · rw [Core.note_trace, further, grown]
    simp
  · have quiet := (@turns_all_heard _ machine _ idle).1
    simp only [List.mem_append, List.mem_cons, or_imp, forall_and, forall_eq]
    exact ⟨⟨trivial, quiet⟩, trivial, proper⟩
  · obtain ⟨happening, among, fires⟩ := fired
    exact ⟨happening, by simp [among], fires⟩
  · rw [rejects]
    refine iff_of_false (by simp) fun heard => refused ?_
    rw [same]
    exact heard.2.before.1 fired

/-- The loop over the pending queue, behind a row that has run. -/
theorem run_pending_halts (async : machine.tables.async_queue = true)
    (calls : Calls E) (fuel : Nat) :
    Triple (Recorded base (Pumping machine)) (machine.run_pending calls fuel)
      (fun _ => Recorded base (Pumping machine)) (Halted machine base) := by
  induction fuel with
  | zero =>
    intro core _
    rw [Machine.run_pending_zero]
    exact .inl rfl
  | succ fuel ih =>
    rintro core ⟨added, grown, proper, heard, fired⟩
    rw [Machine.run_pending_succ]
    cases waits : core.pending with
    | nil => exact ⟨added, grown, proper, heard, fired⟩
    | cons event rest =>
      have taken : ({ core with pending := rest }.note
          (.dequeued event rest core.view)).trace =
            (.dequeued event rest core.view :: added) ++ base := by
        show .dequeued event rest core.view :: core.trace = _
        rw [grown]
        rfl
      suffices dispatched : Triple
          (· = { core with pending := rest }.note
            (.dequeued event rest core.view))
          (marking (fun _ => .failed) (machine.run_event calls event))
          (fun _ => Recorded base (Pumping machine)) (Halted machine base) from
        Triple.seq dispatched (fun _ => ih) _ rfl
      by_cases accepted : machine.accepts event core.view
      · refine (pump_accepted async taken ?_ ?_ accepted).conseq (fun _ => id)
          (fun _ _ => id) ?_
        · simp only [List.mem_cons, forall_eq_or_imp]
          exact ⟨trivial, proper⟩
        · simp only [AllHeard, List.mem_cons, forall_eq_or_imp]
          exact ⟨⟨trivial, heard.1⟩, fun _ => accepted, heard.2⟩
        · rintro fault core' ⟨unrejected, diverged | recorded⟩
          · exact .inl diverged
          · refine .inr (recorded.mono ?_)
            rintro _ ⟨inner, whole, later, rfl⟩
            refine ⟨inner, ?_, iff_of_true unrejected whole⟩
            obtain ⟨happening, among, fires⟩ := fired
            exact ⟨happening, by simp [among], fires⟩
      · exact pump_refused taken rfl proper fired accepted

/-- The loop over the pending queue, from the event that was submitted. -/
theorem first_verdict (async : machine.tables.async_queue = true)
    (calls : Calls E) (fuel : Nat) (event : Event E) (core : Core E) :
    Verdict machine core (machine.run_pending calls fuel
      { core with pending := event :: core.pending }) := by
  cases fuel with
  | zero =>
    rw [Machine.run_pending_zero]
    exact .inl rfl
  | succ fuel =>
    rw [Machine.run_pending_succ]
    show Verdict machine core ((marking (fun _ => .failed)
      (machine.run_event calls event) >>=
        fun _ => machine.run_pending calls fuel)
      (core.note (.dequeued event core.pending core.view)))
    have taken : (core.note (.dequeued event core.pending core.view)).trace =
        [.dequeued event core.pending core.view] ++ core.trace := rfl
    rw [bind_run]
    by_cases accepted : machine.accepts event core.view
    · have pumped := @pump_accepted _ machine _ async calls event _ _ taken
        (by simp [Unrejected])
        ⟨by simp [Heard], fun behind => by simp at behind, trivial⟩ accepted _ rfl
      cases run : marking (fun _ => .failed) (machine.run_event calls event)
          (core.note (.dequeued event core.pending core.view)) with
      | ok value mid =>
        rw [run] at pumped
        have loop := run_pending_halts async calls fuel mid pumped
        dsimp only
        cases onward : machine.run_pending calls fuel mid with
        | ok value core' =>
          rw [onward] at loop
          obtain ⟨added, grown, proper, heard, _⟩ := loop
          refine iff_of_true ?_ ?_
          · show ∀ happening ∈ news core core', Unrejected happening
            rw [news_of_append grown]
            exact proper
          · rw [news_of_append grown]
            exact heard
        | error fault core' =>
          rw [onward] at loop
          rcases loop with diverged | ⟨added, grown, proper, fired, halts⟩
          · exact .inl diverged
          refine .inr ?_
          show (∀ happening ∈ news core core', Unrejected happening) ∧
            (fault.rejection = true → Untouched core core') ↔
              AllHeard machine (news core core')
          rw [news_of_append grown, ← halts]
          constructor
          · intro ⟨_, untouched⟩
            by_contra rejects
            obtain ⟨happening, among, fires⟩ := fired
            have idle := (untouched (by simpa using rejects)).idle happening
            rw [news_of_append grown] at idle
            exact idle among fires
          · intro unrejected
            refine ⟨proper, fun rejects => ?_⟩
            rw [unrejected] at rejects
            cases rejects
      | error fault core' =>
        rw [run] at pumped
        obtain ⟨unrejected, diverged | ⟨added, grown, proper, heard, _⟩⟩ := pumped
        · exact .inl diverged
        refine .inr (iff_of_true ⟨?_, fun rejects => ?_⟩ ?_)
        · rw [news_of_append grown]
          exact proper
        · rw [unrejected] at rejects
          cases rejects
        · rw [news_of_append grown]
          exact heard
    · obtain ⟨fault, core', run, rejects, idle⟩ :=
        @Machine.run_event_idle _ machine calls event
          (core.note (.dequeued event core.pending core.view)) accepted
      unfold marking marked
      rw [run]
      obtain ⟨_, turns, rfl, quiet⟩ := idle
      obtain ⟨proper, heard, still⟩ := @turns_all_heard _ machine _ quiet
      refine .inr (iff_of_true ⟨?_, fun _ => ⟨?_, rfl, rfl, rfl⟩⟩ ?_)
      · rw [@news_of_append _ core _
          ((.failed :: turns) ++ [.dequeued event core.pending core.view])
          (by simp)]
        simp only [List.mem_append, List.mem_cons, or_imp, forall_and, forall_eq]
        exact ⟨⟨trivial, proper⟩, trivial, by simp⟩
      · rw [@news_of_append _ core _
          ((.failed :: turns) ++ [.dequeued event core.pending core.view])
          (by simp)]
        simp only [List.mem_append, List.mem_cons, or_imp, forall_and, forall_eq]
        exact ⟨⟨id, still⟩, id, by simp⟩
      · rw [@news_of_append _ core _
          ((.failed :: turns) ++ [.dequeued event core.pending core.view])
          (by simp)]
        simp only [AllHeard, List.mem_append, List.mem_cons, or_imp, forall_and,
          forall_eq]
        refine ⟨⟨⟨trivial, heard.1⟩, trivial, by simp⟩, ?_⟩
        refine (Tame.heeded ?_).mpr ⟨fun behind => by simp at behind, trivial⟩
        intro happening among
        rcases List.mem_cons.mp among with rfl | among
        · exact id
        · have is_turn := quiet happening among
          cases happening <;> first | exact id | cases is_turn

/-- A call of an asynchronous machine. -/
theorem async_verdict (async : machine.tables.async_queue = true) (fuel : Nat)
    (event : Event E) (core : Core E) :
    Verdict machine core (machine.process_event fuel event core) := by
  cases fuel with
  | zero =>
    rw [Machine.process_event_zero]
    exact .inl rfl
  | succ fuel =>
    rw [Machine.process_event_async async, bind_run]
    unfold process
    rw [get_bind_run]
    by_cases room : core.pending.length < machine.tables.capacity
    · rw [if_pos room]
      exact first_verdict async ⟨machine.process_event fuel, fuel⟩ fuel event core
    · rw [if_neg room]
      refine .inr (iff_of_true ⟨?_, fun rejects => by cases rejects⟩ ?_)
      · rw [@news_of_append _ core core [] rfl]
        simp
      · rw [@news_of_append _ core core [] rfl]
        exact ⟨by simp, trivial⟩

/-- In every call that returns, no row's queue work is cut off by a rejection and
a rejection means that no row has run, exactly when every event that a row
dispatches, or that leaves the pending queue behind a row that has run, is
accepted. -/
theorem clean_iff_heard (core : Core E) (fuel : Nat) (event : Event E)
    (ends : returns (machine.process_event fuel event) core = true) :
    Clean core (machine.process_event fuel event core) ↔
      (∀ happening ∈ news core (final (machine.process_event fuel event) core),
        Heard machine happening) ∧
      Throughout (Heeded machine)
        (news core (final (machine.process_event fuel event) core)) := by
  have verdict : Verdict machine core (machine.process_event fuel event core) := by
    cases async : machine.tables.async_queue with
    | false => exact sync_verdict async fuel event core
    | true => exact async_verdict async fuel event core
  unfold final
  unfold returns at ends
  cases run : machine.process_event fuel event core with
  | ok value core' =>
    rw [run] at verdict
    exact verdict
  | error fault core' =>
    rw [run] at verdict ends
    rcases verdict with rfl | verdict
    · cases ends
    · exact verdict

end Calls

/-! ### An event without a row -/

instance (happening : Happening E) : Decidable (Unrejected happening) :=
  match happening with
  | .surfaced _ fault => inferInstanceAs (Decidable (fault.rejection = false))
  | .turn .. | .fired .. | .handled .. | .exited .. | .entered .. | .replaced ..
  | .reset .. | .log_state_change .. | .faulted .. | .recovered .. | .raised ..
  | .offered .. | .recovering .. | .unentered .. | .follow_up .. | .queued ..
  | .put .. | .put_off .. | .released .. | .requeued .. | .dequeued ..
  | .failed => inferInstanceAs (Decidable True)

theorem Clean.unrejected {core : Core E} {effect : Effect E Unit}
    (clean : Clean core (effect core)) :
    ∀ happening ∈ news core (final effect core), Unrejected happening := by
  unfold final
  unfold Clean at clean
  cases run : effect core with
  | ok value core' =>
    rw [run] at clean
    exact clean
  | error fault core' =>
    rw [run] at clean
    exact clean.1

/-- A row asks for an event that has no row in the state it leads to. -/
def orphan : Flat sample where
  table := scalar 0 [1]
    [{ in_state := plain 0, event := on 0,
       process_events := [⟨Name.event 1, ()⟩], out_state := plain 1 }]

/-- Whether a call is rejected. -/
def rejected (result : EStateM.Result (Fault E) (Core E) Unit) : Bool :=
  match result with
  | .ok .. => false
  | .error fault _ => fault.rejection

theorem orphan_returns :
    returns ((Machine.flat orphan).process_event 5 ⟨Name.event 0, ()⟩)
      ((Machine.flat orphan).new ()) = true := by
  decide +kernel

/-- The row has moved the machine, and the call is rejected. -/
theorem orphan_unclean :
    ¬ Clean ((Machine.flat orphan).new ())
        ((Machine.flat orphan).process_event 5 ⟨Name.event 0, ()⟩
          ((Machine.flat orphan).new ())) ∧
      rejected ((Machine.flat orphan).process_event 5 ⟨Name.event 0, ()⟩
        ((Machine.flat orphan).new ())) = true ∧
      ((final ((Machine.flat orphan).process_event 5 ⟨Name.event 0, ()⟩)
        ((Machine.flat orphan).new ())).view.state Flat.slot).ident ≠
          (((Machine.flat orphan).new ()).view.state Flat.slot).ident := by
  refine ⟨fun clean => ?_, by decide +kernel, by decide +kernel⟩
  have cut : ¬ ∀ happening ∈ news ((Machine.flat orphan).new ())
      (final ((Machine.flat orphan).process_event 5 ⟨Name.event 0, ()⟩)
        ((Machine.flat orphan).new ())), Unrejected happening := by
    decide +kernel
  exact cut clean.unrejected

theorem clean_iff_heard_orphan :
    Clean ((Machine.flat orphan).new ())
        ((Machine.flat orphan).process_event 5 ⟨Name.event 0, ()⟩
          ((Machine.flat orphan).new ())) ↔
      (∀ happening ∈ news ((Machine.flat orphan).new ())
        (final ((Machine.flat orphan).process_event 5 ⟨Name.event 0, ()⟩)
          ((Machine.flat orphan).new ())),
        Heard (Machine.flat orphan) happening) ∧
      Throughout (Heeded (Machine.flat orphan))
        (news ((Machine.flat orphan).new ())
          (final ((Machine.flat orphan).process_event 5 ⟨Name.event 0, ()⟩)
            ((Machine.flat orphan).new ()))) :=
  clean_iff_heard ((Machine.flat orphan).new ()) 5 ⟨Name.event 0, ()⟩
    orphan_returns

end SmlRs.Macros
