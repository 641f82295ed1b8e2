/-
Module: SmlRs.Macros.Rules
Purpose: What has to be shown of the rows of a machine, of whatever kind, so that
  it holds of whole runs.
Trusted boundary: none
Main exports: Rules, Rules.process_event, Rules.reached, Steady, Steady.reached
-/
import SmlRs.Macros.Conduct

namespace SmlRs.Macros

open Lib

variable {E : Environment}

/-- These terms also hold together where events are rejected, and where they are
put into the pending queue and leave it. -/
structure Rules (tree : Tables E) {ι : Type} (terms : ι → Terms E) : Prop
    extends Conduct tree (fun calls => ∀ i, (terms i).Kept calls) terms where
  rejected : ∀ i fault core, fault.rejection = true → (terms i).calm core →
    (terms i).out fault core
  put : ∀ i core event, (terms i).calm core →
    core.pending.length < tree.capacity →
      (terms i).calm { core with pending := event :: core.pending }
  dequeued : ∀ i core event rest, (terms i).calm core →
    core.pending = event :: rest →
      (terms i).calm ({ core with pending := rest }.note
        (.dequeued event rest core.view))
  failed : ∀ i fault core, (terms i).out fault core →
    (terms i).out fault (core.note .failed)

namespace Rules

variable {machine : Machine E} {ι : Type} {terms : ι → Terms E}
  (rules : Rules machine.tables terms)

include rules

theorem run_event {calls : Calls E} (kept : ∀ i, (terms i).Kept calls) (i : ι)
    (event : Event E) :
    Triple (terms i).calm (machine.run_event calls event)
      (fun _ => (terms i).calm) (terms i).out :=
  rules.every_event kept i (rules.rejected i) event

theorem run_pending {calls : Calls E} (kept : ∀ i, (terms i).Kept calls) (i : ι)
    (fuel : Nat) :
    Triple (terms i).calm (machine.run_pending calls fuel)
      (fun _ => (terms i).calm) (terms i).out := by
  induction fuel with
  | zero =>
    intro core calm
    rw [Machine.run_pending_zero]
    exact rules.returned i .diverged core rfl rfl calm
  | succ fuel ih =>
    intro core calm
    rw [Machine.run_pending_succ]
    cases waiting : core.pending with
    | nil => exact calm
    | cons event rest =>
      have taken := rules.dequeued i core event rest calm waiting
      have dispatched : Triple (terms i).calm
          (marking (fun _ => .failed) (machine.run_event calls event))
          (fun _ => (terms i).calm) (terms i).out :=
        Triple.marked ((rules.run_event kept i event).conseq (fun _ => id)
          (fun _ _ => id) fun fault core => rules.failed i fault core)
      exact Triple.seq dispatched (fun _ => ih) _ taken

/-- Every event is answered on these terms. -/
theorem process_event (i : ι) (fuel : Nat) (event : Event E) :
    Triple (terms i).calm (machine.process_event fuel event)
      (fun _ => (terms i).calm) (terms i).out := by
  induction fuel generalizing i event with
  | zero =>
    intro core calm
    rw [Machine.process_event_zero]
    exact rules.returned i .diverged core rfl rfl calm
  | succ fuel ih =>
    have kept (i : ι) : (terms i).Kept ⟨machine.process_event fuel, fuel⟩ :=
      fun event => ih i event
    cases async : machine.tables.async_queue with
    | false =>
      rw [Machine.process_event_sync async]
      exact rules.run_event kept i event
    | true =>
      rw [Machine.process_event_async async]
      refine Triple.seq ?_ fun _ => rules.run_pending kept i fuel
      intro core calm
      unfold process
      rw [get_bind_run]
      by_cases room : core.pending.length < machine.tables.capacity
      · rw [if_pos room]
        exact rules.put i core event calm room
      · rw [if_neg room]
        exact rules.returned i .queue_full core rfl rfl calm

end Rules

theorem flat_entries_within {flat : Flat E} :
    Within Shifts flat.initial_entries := by
  have moving : Moving (Shifts (E := E)) := shifts_moving
  apply Within.seq moving.frame (Within.gets moving.frame)
  intro core
  apply Within.seq moving.frame
  · exact moving.noted trivial
  intro _
  apply Within.seq moving.frame (call_hook_within moving.acting _)
  exact fun _ => moving.acting.action_calls _ _

namespace Rules

variable {machine : Machine E} {ι : Type} {terms : ι → Terms E}

/-- What the rows of a machine guarantee holds in every run. -/
theorem reached (rules : Rules machine.tables terms) (i : ι)
    (shifts : ∀ {core core'}, Shifts core core' → (terms i).calm core →
      (terms i).calm core')
    (risen : ∀ {fault core}, (terms i).risen fault core → (terms i).calm core)
    (out : ∀ {fault core}, (terms i).out fault core → (terms i).calm core)
    (fresh : ∀ world, (terms i).calm (machine.new world)) {core : Core E}
    (reached : machine.Reaches core) : (terms i).calm core := by
  have ends {effect : Effect E Unit} {core : Core E}
      (triple : Triple (terms i).calm effect (fun _ => (terms i).calm)
        fun _ => (terms i).calm) (calm : (terms i).calm core) :
      (terms i).calm (final effect core) := by
    unfold final
    cases run : effect core with
    | ok value core' => exact triple.ok calm run
    | error fault core' => exact triple.error calm run
  induction reached with
  | new world => exact fresh world
  | initialize_unlocked world fuel =>
    refine ends ?_ (fresh world)
    have kept (i : ι) : (terms i).Kept ⟨machine.process_event fuel, fuel⟩ :=
      fun event => rules.process_event i fuel event
    cases machine with
    | flat code =>
      have conduct : Conduct code.tables _ terms := rules.toConduct
      refine Triple.seq (flat_entries_within.triple shifts) fun _ => ?_
      refine @Conduct.complete _ _ _ (fun _ => (terms i).calm) ?_ (fun _ calm => calm)
        fuel
      refine Triple.reads fun core => ?_
      exact (conduct.completes kept i (rules.rests i) (fun _ => id) _ _).conseq
        (fun _ start => start.2) (fun _ _ => id) fun _ _ => risen
    | tree code =>
      have conduct : Conduct code.toTables _ terms := rules.toConduct
      refine Triple.seq (shifts_moving.initial_entries.triple shifts)
        fun _ => ?_
      have settles := conduct.settles kept i (rules.rests i) (fun _ => id)
        fun moved core => rules.noted i (.recovered moved) core trivial
      exact (settles.stabilize none).conseq (fun _ => id) (fun _ _ => id)
        fun _ _ => out
  | process_event reached fuel event ih =>
    refine ends ?_ ih
    exact (rules.process_event i fuel event).conseq (fun _ => id)
      (fun _ _ => id) fun _ _ => out
  | context reached world ih =>
    exact shifts (shifts_moving.view _ _) ih

end Rules

/-! ### Invariants -/

/-- Notes around the rows of an event and around its faults. -/
def Happening.plain : Happening E → Prop
  | .turn .. | .handled .. | .recovered _ | .raised _ | .faulted _
  | .recovering .. | .offered _ | .dequeued .. | .failed => True
  | _ => False

/-- What has to be shown of the rows of a machine for an invariant that holds at
every place of a run. -/
structure Steady (tree : Tables E) (inv : Core E → Prop) : Prop where
  row : ∀ calls, (∀ event, Triple inv (calls.process_event event) (fun _ => inv)
      fun _ => inv) →
    ∀ cause place row payload index change, Within Shifts change →
      Triple inv (tree.fired_row calls cause place row payload index change)
        (fun _ => inv) fun _ => inv
  note : ∀ core happening, happening.plain → inv core → inv (core.note happening)
  counted : ∀ core, inv core → inv { core with serial := core.serial + 1 }
  put : ∀ core event, inv core → core.pending.length < tree.capacity →
    inv { core with pending := event :: core.pending }
  taken : ∀ core event rest, inv core → core.pending = event :: rest →
    inv { core with pending := rest }

namespace Steady

variable {inv : Core E → Prop}

/-- The terms of an invariant. -/
def terms (inv : Core E → Prop) (_ : Unit) : Terms E where
  calm := inv
  risen _ := inv
  walking _ _ := inv
  out _ := inv

theorem rules {tree : Tables E} (steady : Steady tree inv) :
    Rules tree (terms inv) where
  row calls kept _ cause handled place row payload index change within _ := by
    have body := steady.row calls (fun event => kept () event) cause place row
      payload index change within
    cases cause <;> exact body
  guard _ cause _ _ core before := by
    cases cause <;> exact steady.note core _ trivial before
  rests _ _ calm := calm
  noted _ happening core framing calm := by
    refine steady.note core happening ?_ calm
    cases happening <;> trivial
  settled _ happening core framing calm := by
    refine steady.note core happening ?_ calm
    cases happening <;> trivial
  counted _ core calm := steady.counted core calm
  faulted _ _ _ core risen := steady.note core _ trivial risen
  uncaught _ _ _ _ risen := risen
  offered _ _ _ core _ _ risen :=
    steady.note _ _ trivial (steady.counted core risen)
  asked _ _ _ _ _ core walking := steady.note core _ trivial walking
  missed _ _ _ _ _ _ walking := walking
  recovered _ _ _ walking := walking
  returned _ _ _ _ _ calm := calm
  rejected _ _ _ _ calm := calm
  put _ core event calm room := steady.put core event calm room
  dequeued _ core event rest calm waiting :=
    steady.note _ _ trivial (steady.taken core event rest calm waiting)
  failed _ _ core out := steady.note core _ trivial out

/-- Such an invariant holds in every run. -/
theorem reached {machine : Machine E} (steady : Steady machine.tables inv)
    (shifts : ∀ {core core'}, Shifts core core' → inv core → inv core')
    (fresh : ∀ world, inv (machine.new world)) {core : Core E}
    (reached : machine.Reaches core) : inv core :=
  steady.rules.reached () shifts id id fresh reached

end Steady

end SmlRs.Macros
