/-
Module: SmlRs.Macros.Faults
Purpose: How often the fault of a guard or an action is offered to the exception
  rows.
Trusted boundary: none
Main exports: newest, Fresh, Contained, offers, offers_rules,
  fresh_iff_contained
-/
import SmlRs.Macros.Routing
import SmlRs.Macros.Rules

namespace SmlRs.Macros

open Lib

variable {E : Environment}

/-! ### Offers -/

/-- The newest fault of a record: whether it can be offered, since it was raised
by a row that does not recover and has not been offered yet. -/
def newest : List (Happening E) → Option Bool
  | [] => none
  | .raised cause :: _ => some (!cause.recovers)
  | .offered _ :: _ => some false
  | _ :: past => newest past

/-- A fault that is offered to the exception rows has not been offered before,
and no exception row has raised it. -/
def Fresh : Happening E → List (Happening E) → Prop
  | .offered _, past => newest past = some true
  | _, _ => True

/-- Rows other than exception rows do not end with the fault of an event that
they have dispatched or retried. -/
def Contained : Happening E → Prop
  | .surfaced cause fault => cause.recovers = true ∨ fault.error = none
  | _ => True

/-- Notes that say nothing about faults. -/
def Happening.unmarked : Happening E → Prop
  | .raised _ | .offered _ | .surfaced .. => False
  | _ => True

section Marks

variable {happening : Happening E} {past added : List (Happening E)}

theorem newest_of_unmarked (unmarked : happening.unmarked) :
    newest (happening :: past) = newest past := by
  cases happening <;> first | rfl | cases unmarked

theorem fresh_of_unmarked (unmarked : happening.unmarked) :
    Fresh happening past := by
  cases happening <;> trivial

theorem contained_of_unmarked (unmarked : happening.unmarked) :
    Contained happening := by
  cases happening <;> trivial

instance (happening : Happening E) (past : List (Happening E)) :
    Decidable (Fresh happening past) :=
  match happening with
  | .offered _ => inferInstanceAs (Decidable (newest past = some true))
  | .turn .. | .fired .. | .handled .. | .exited .. | .entered .. | .replaced ..
  | .reset .. | .log_state_change .. | .faulted .. | .recovered .. | .raised ..
  | .recovering .. | .surfaced .. | .unentered .. | .follow_up .. | .queued ..
  | .put .. | .put_off .. | .released .. | .requeued .. | .dequeued ..
  | .failed => inferInstanceAs (Decidable True)

end Marks

/-- So far, what has been added to a record is fresh exactly if it is
contained. -/
def Balanced (added : List (Happening E)) : Prop :=
  Throughout Fresh added ↔ ∀ happening ∈ added, Contained happening

/-- A fault is on its way to the exception rows: behind its offer, the record
will be balanced. -/
def Owed (fault : Fault E) (added : List (Happening E)) : Prop :=
  if fault.error.isSome then
    Throughout Fresh added ∧ newest added = some true ↔
      ∀ happening ∈ added, Contained happening
  else Balanced added

/-- A fault that has been offered, or cannot be. -/
def Spent (fault : Fault E) (added : List (Happening E)) : Prop :=
  Balanced added ∧ (fault.error.isSome = true → newest added ≠ some true)

section Balanced

variable {happening : Happening E} {added : List (Happening E)}
  {fault : Fault E} {cause : Cause}

theorem contained_cons :
    (∀ entry ∈ happening :: added, Contained entry) ↔
      Contained happening ∧ ∀ entry ∈ added, Contained entry := by
  simp

/-- A note that fits on both sides keeps the balance. -/
theorem Balanced.grow (balanced : Balanced added)
    (fresh : Fresh happening added) (contained : Contained happening) :
    Balanced (happening :: added) := by
  unfold Balanced
  rw [throughout_cons, contained_cons]
  constructor
  · intro ⟨_, rest⟩
    exact ⟨contained, balanced.mp rest⟩
  · intro ⟨_, rest⟩
    exact ⟨fresh, balanced.mpr rest⟩

theorem Balanced.unmarked (balanced : Balanced added)
    (unmarked : happening.unmarked) : Balanced (happening :: added) :=
  balanced.grow (fresh_of_unmarked unmarked) (contained_of_unmarked unmarked)

theorem owed_iff (failed : fault.error.isSome = true) :
    Owed fault added ↔
      (Throughout Fresh added ∧ newest added = some true ↔
        ∀ happening ∈ added, Contained happening) := by
  unfold Owed
  rw [if_pos failed]

theorem Balanced.owed (balanced : Balanced added)
    (unfailed : fault.error.isSome = false) : Owed fault added := by
  unfold Owed
  rw [if_neg (by simp [unfailed])]
  exact balanced

theorem Owed.balanced (owed : Owed fault added)
    (unfailed : fault.error.isSome = false) : Balanced added := by
  unfold Owed at owed
  rw [if_neg (by simp [unfailed])] at owed
  exact owed

theorem Owed.unmarked (owed : Owed fault added)
    (unmarked : happening.unmarked) : Owed fault (happening :: added) := by
  cases failed : fault.error.isSome with
  | false => exact ((owed.balanced failed).unmarked unmarked).owed failed
  | true =>
    rw [owed_iff failed] at owed ⊢
    rw [throughout_cons, contained_cons, ← owed, newest_of_unmarked unmarked]
    simp [fresh_of_unmarked unmarked, contained_of_unmarked unmarked]

theorem Spent.unmarked (spent : Spent fault added)
    (unmarked : happening.unmarked) : Spent fault (happening :: added) := by
  refine ⟨spent.1.unmarked unmarked, fun failed => ?_⟩
  rw [newest_of_unmarked unmarked]
  exact spent.2 failed

theorem Balanced.spent (balanced : Balanced added)
    (unfailed : fault.error.isSome = false) : Spent fault added :=
  ⟨balanced, by simp [unfailed]⟩

/-- A fault that a row other than an exception row raises is owed. -/
theorem Balanced.raise_owed (balanced : Balanced added)
    (event : cause.recovers = false) : Owed fault (.raised cause :: added) := by
  have raised : Balanced (.raised cause :: added) :=
    balanced.grow trivial trivial
  cases failed : fault.error.isSome with
  | false => exact raised.owed failed
  | true =>
    unfold Balanced at raised
    rw [owed_iff failed, ← raised]
    simp [newest, event]

theorem Balanced.raise_spent (balanced : Balanced added)
    (exception : cause.recovers = true) : Spent fault (.raised cause :: added) :=
  ⟨balanced.grow trivial trivial, by simp [newest, exception]⟩

/-- A fault that comes out of an event of a row is spent already. -/
theorem Spent.surface_owed (spent : Spent fault added)
    (event : cause.recovers = false) :
    Owed fault (.surfaced cause fault :: added) := by
  cases failed : fault.error.isSome with
  | false =>
    have unfailed : fault.error = none := by simpa using failed
    have surfaced : Balanced (.surfaced cause fault :: added) :=
      spent.1.grow trivial (.inr unfailed)
    exact surfaced.owed failed
  | true =>
    rw [owed_iff failed, contained_cons]
    constructor
    · intro ⟨_, fresh⟩
      exact absurd fresh (spent.2 failed)
    · intro ⟨contained, _⟩
      rcases contained with recovers | unfailed
      · rw [event] at recovers
        cases recovers
      · rw [unfailed] at failed
        cases failed

theorem Spent.surface_spent (spent : Spent fault added)
    (exception : cause.recovers = true) :
    Spent fault (.surfaced cause fault :: added) :=
  ⟨spent.1.grow trivial (.inl exception), spent.2⟩

theorem Owed.offer {serial : Nat} (owed : Owed fault added)
    (failed : fault.error.isSome = true) :
    Balanced (.offered serial :: added) := by
  rw [owed_iff failed] at owed
  unfold Balanced
  rw [throughout_cons, contained_cons, ← owed]
  constructor
  · intro ⟨fresh, rest⟩
    exact ⟨trivial, rest, fresh⟩
  · intro ⟨_, rest, fresh⟩
    exact ⟨fresh, rest⟩

end Balanced

/-! ### Whole calls -/

/-- The terms on which a machine offers its faults. -/
def offers (base : List (Happening E)) : Terms E where
  calm := Recorded base Balanced
  risen fault := Recorded base (Owed fault)
  walking _ handled := Recorded base fun added =>
    Balanced added ∧ (handled = false → newest added ≠ some true)
  out fault := Recorded base (Spent fault)

theorem balanced_shifts {base : List (Happening E)} {core core' : Core E}
    (moved : Shifts core core') (calm : (offers base).calm core) :
    (offers base).calm core' := by
  obtain ⟨_, _, _, news, further, moves⟩ := moved
  obtain ⟨added, grown, balanced⟩ := calm
  refine ⟨news ++ added, by rw [further, grown, List.append_assoc], ?_⟩
  clear further
  induction news with
  | nil => exact balanced
  | cons happening news ih =>
    have rest := ih fun entry among => moves entry (by simp [among])
    refine rest.unmarked ?_
    have moving := moves happening (by simp)
    cases happening <;> trivial

theorem offers_queueing {base : List (Happening E)} {calls : Calls E}
    (kept : (offers base).Kept calls) :
    Queueing calls (offers base).calm (offers base).out where
  kept := kept
  events _ _ _ calm := calm
  noted core happening queues calm := by
    refine calm.note fun added balanced => balanced.unmarked ?_
    cases happening <;> trivial
  noted_out fault core happening queues out := by
    refine out.note fun added spent => spent.unmarked ?_
    cases happening <;> trivial
  absorbed _ _ _ out := out.mono fun _ spent => spent.1
  returned _ _ unfailed calm :=
    calm.mono fun _ balanced => balanced.spent (by simp [unfailed])

section Row

variable {base : List (Happening E)} {tree : Tables E} {calls : Calls E}
  (kept : (offers base).Kept calls) {cause : Cause} (place : Slot)
  (row : StateTransition E) (payload : Tables.Payload E) (index : Nat)
  {change : Effect E Unit} (within : Within Shifts change)

include kept within

/-- A row of an event or a completion. -/
theorem offers_event_row (event : cause.recovers = false) :
    Triple (offers base).calm
      (tree.fired_row calls cause place row payload index change)
      (fun _ => (offers base).calm) (offers base).risen := by
  have queueing := offers_queueing kept
  apply fired_row_triple
  · exact fun core calm => calm.note fun _ balanced => balanced.unmarked trivial
  · refine (within.triple (@balanced_shifts _ base)).conseq (fun _ => id)
      (fun _ _ => id) ?_
    exact fun fault core calm => calm.note fun _ balanced =>
      balanced.raise_owed event
  · refine defer_code_triple (fun core events => queueing.events core events _)
      (fun core event => queueing.noted core (.put_off event) trivial) ?_
    exact fun core calm => calm.mono fun _ balanced => balanced.owed rfl
  · refine (queueing.queue_work row).conseq (fun _ => id) (fun _ _ => id) ?_
    exact fun fault core out => out.note fun _ spent => spent.surface_owed event

/-- An exception row. -/
theorem offers_exception_row (serial : Nat) (handled : Bool) :
    Triple ((offers base).walking serial handled)
      (tree.fired_row calls (.exception serial) place row payload index change)
      (fun _ => (offers base).walking serial true) (offers base).out := by
  have queueing := offers_queueing kept
  apply @fired_row_triple _ _ _ _ _ _ _ _ _ _
    ((offers base).walking serial handled)
  · exact fun core walking => walking.note fun _ held =>
      ⟨held.1.unmarked trivial, held.2⟩
  · refine (within.triple (@balanced_shifts _ base)).conseq ?_ (fun _ _ => id) ?_
    · exact fun core walking => walking.mono fun _ held => held.1
    · exact fun fault core calm => calm.note fun _ balanced =>
        balanced.raise_spent rfl
  · exact queueing.defer_code row payload
  · refine (queueing.queue_work row).conseq (fun _ => id) ?_ ?_
    · exact fun _ core calm => calm.mono fun _ balanced =>
        ⟨balanced, fun unhandled => by cases unhandled⟩
    · exact fun fault core out => out.note fun _ spent =>
        spent.surface_spent rfl

end Row

theorem offers_rules (tree : Tables E)
    (handlers : tree.has_exception_handlers = true) :
    Rules tree (offers (E := E)) where
  row calls kept base cause handled place row payload index change within _ := by
    cases cause with
    | exception serial =>
      exact offers_exception_row (kept base) place row payload index within
        serial handled
    | event serial =>
      exact offers_event_row (kept base) place row payload index within rfl
    | completion =>
      exact offers_event_row (kept base) place row payload index within rfl
  guard base cause handled error core before := by
    cases cause with
    | exception serial =>
      exact before.note fun added held => held.1.raise_spent rfl
    | event serial => exact before.note fun added held => held.raise_owed rfl
    | completion => exact before.note fun added held => held.raise_owed rfl
  rests _ _ calm := calm
  noted base happening core framing calm := by
    refine calm.note fun added balanced => balanced.unmarked ?_
    cases happening <;> trivial
  settled base happening core framing calm := by
    refine calm.note fun added balanced => balanced.unmarked ?_
    cases happening <;> trivial
  counted _ _ calm := calm
  faulted _ _ _ _ risen := risen.note fun _ owed => owed.unmarked trivial
  uncaught _ _ _ reason risen := by
    rcases reason with unfailed | none
    · refine risen.mono fun added owed => ?_
      exact (owed.balanced (by simp [unfailed])).spent (by simp [unfailed])
    · rw [handlers] at none
      cases none
  offered _ _ _ _ failed _ risen :=
    risen.note fun _ owed =>
      ⟨owed.offer (by simp [failed]), fun _ => by simp [newest]⟩
  asked _ _ _ _ _ _ walking :=
    walking.note fun _ held => ⟨held.1.unmarked trivial, held.2⟩
  missed _ _ _ _ _ _ walking :=
    walking.mono fun _ held => ⟨held.1, fun _ => held.2 rfl⟩
  recovered _ _ _ walking := walking.mono fun _ held => held.1
  returned _ _ _ unfailed _ calm :=
    calm.mono fun _ balanced => balanced.spent (by simp [unfailed])
  rejected _ fault _ rejects calm := by
    have unfailed : fault.error.isSome = false := by
      cases fault <;> first | rfl | cases rejects
    exact calm.mono fun _ balanced => balanced.spent unfailed
  put _ _ _ calm _ := calm
  dequeued _ _ _ _ calm _ := calm.note fun _ balanced => balanced.unmarked trivial
  failed _ _ _ out := out.note fun _ spent => spent.unmarked trivial

/-- In every call, each fault is offered to the exception rows at most once, and
never if an exception row has raised it, exactly when no row but an exception
row ends with the fault of an event that it has dispatched or retried. -/
theorem fresh_iff_contained {machine : Machine E}
    (handlers : machine.tables.has_exception_handlers = true) (core : Core E)
    (fuel : Nat) (event : Event E) :
    Throughout Fresh (news core (final (machine.process_event fuel event) core)) ↔
      ∀ happening ∈ news core (final (machine.process_event fuel event) core),
        Contained happening := by
  have rules := offers_rules machine.tables handlers
  have call := rules.process_event core.trace fuel event
  have start : (offers core.trace).calm core :=
    ⟨[], rfl, by simp [Balanced]⟩
  suffices ends : Recorded core.trace Balanced
      (final (machine.process_event fuel event) core) by
    obtain ⟨added, grown, balanced⟩ := ends
    rw [news_of_append grown]
    exact balanced
  unfold final
  cases run : machine.process_event fuel event core with
  | ok value core' => exact call.ok start run
  | error fault core' => exact (call.error start run).mono fun _ spent => spent.1

/-! ### A recovery that fails -/

/-- A row asks for an event whose row fails, and so does the exception row. -/
def relapse : Flat sample where
  table := scalar 0 []
    [{ in_state := plain 0, event := on 0,
       process_events := [⟨Name.event 1, ()⟩], out_state := plain 0,
       internal_transition := true },
     { in_state := plain 0, event := on 1, actions := [Name.fails],
       out_state := plain 0, internal_transition := true },
     { in_state := plain 0, actions := [Name.fails], out_state := plain 0,
       event := { kind := .exception, ident := Name.X, wildcard := true },
       internal_transition := true }]

theorem relapse_handlers :
    (Machine.flat relapse).tables.has_exception_handlers = true := by
  decide

/-- The fault of the exception row is offered to the exception row. -/
theorem relapse_offered_again :
    (Machine.flat relapse).tables.has_exception_handlers = true ∧
      ¬ Throughout Fresh (news ((Machine.flat relapse).new ())
        (final ((Machine.flat relapse).process_event 5 ⟨Name.event 0, ()⟩)
          ((Machine.flat relapse).new ()))) :=
  ⟨relapse_handlers, by decide +kernel⟩

theorem fresh_iff_contained_relapse :
    Throughout Fresh (news ((Machine.flat relapse).new ())
        (final ((Machine.flat relapse).process_event 5 ⟨Name.event 0, ()⟩)
          ((Machine.flat relapse).new ()))) ↔
      ∀ happening ∈ news ((Machine.flat relapse).new ())
        (final ((Machine.flat relapse).process_event 5 ⟨Name.event 0, ()⟩)
          ((Machine.flat relapse).new ())), Contained happening :=
  fresh_iff_contained relapse_handlers ((Machine.flat relapse).new ()) 5
    ⟨Name.event 0, ()⟩

end SmlRs.Macros
