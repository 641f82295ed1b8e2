/-
Module: SmlRs.Macros.Changes
Purpose: Invariants of a run that may be broken while a row changes its slot, and
  that hold where every entry of the record meets a condition.
Trusted boundary: none
Main exports: Observing, Observing.reached
-/
import SmlRs.Lib.Record
import SmlRs.Macros.Steps

namespace SmlRs.Macros

open Lib

variable {E : Environment}

/-- Notes around the rows of a machine. -/
def Happening.around : Happening E → Prop
  | .handled .. | .recovering .. => True
  | happening => happening.outer

/-- What has to be shown of a machine for an invariant that holds wherever no row is
at its change, in runs of which every entry meets a condition. -/
structure Observing (tree : Tree E)
    (meets : Happening E → List (Happening E) → Prop) (inv : Core E → Prop) :
    Prop where
  /-- The invariant is one of the slots and the record. -/
  still : ∀ {core core' : Core E}, core'.view.state = core.view.state →
    core'.view.exit_skip = core.view.exit_skip → core'.trace = core.trace →
      inv core → inv core'
  noted : ∀ core happening, happening.around → inv core →
    inv (core.note happening)
  turn : ∀ serial event place core, inv core →
    inv (core.note (.turn serial event place core.view))
  fired : ∀ cause place row index core, inv core →
    inv (core.note (.fired cause place row index core.view))
  change : ∀ cause place row payload index past core, tree.Placed place →
    row ∈ tree.rows place row.in_state.ident →
      core.trace = .fired cause place row index core.view :: past →
        Throughout meets core.trace → inv core →
          Throughout meets (final (tree.change cause place row payload) core).trace →
            inv (final (tree.change cause place row payload) core)
  fresh : ∀ world, inv (tree.new world)
  begun : ∀ world,
    Throughout meets (final tree.initial_entries (tree.new world)).trace →
      inv (final tree.initial_entries (tree.new world))

/-- The invariant survives a part of a run if the entries meet the condition. -/
def Upholds (meets : Happening E → List (Happening E) → Prop)
    (inv : Core E → Prop) (core core' : Core E) : Prop :=
  Throughout meets core'.trace →
    Throughout meets core.trace ∧ (inv core → inv core')

namespace Observing

variable {tree : Tree E} {meets : Happening E → List (Happening E) → Prop}
  {inv : Core E → Prop} (observing : Observing tree meets inv)

theorem upholds_frame : Frame (Upholds meets inv) where
  refl _ := fun meeting => ⟨meeting, id⟩
  trans first second := fun meeting =>
    have later := second meeting
    have earlier := first later.1
    ⟨earlier.1, fun start => later.2 (earlier.2 start)⟩

theorem upholds_note {core : Core E} {happening : Happening E}
    (noted : inv core → inv (core.note happening)) :
    Upholds meets inv core (core.note happening) :=
  fun meeting => ⟨meeting.2, noted⟩

include observing

theorem upholds_quiet : Quiet (Upholds meets inv) where
  frame := upholds_frame
  world _ _ := fun meeting => ⟨meeting, observing.still rfl rfl rfl⟩
  deferred _ _ := fun meeting => ⟨meeting, observing.still rfl rfl rfl⟩
  pending _ _ := fun meeting => ⟨meeting, observing.still rfl rfl rfl⟩
  outer core happening outside := by
    apply upholds_note
    apply observing.noted
    cases happening <;> trivial

theorem bodies {calls : Calls E}
    (nested : ∀ event, Within (Upholds meets inv) (calls.process_event event))
    (cause : Cause) {place : Slot} (placed : tree.Placed place) :
    Bodies tree.toTables (Upholds meets inv) calls cause place := by
  intro row listed payload index
  apply Within.of_final
  intro core
  have begins : Upholds meets inv core
      (core.note (.fired cause place row index core.view)) :=
    upholds_note (observing.fired cause place row index core)
  have changes : Upholds meets inv
      (core.note (.fired cause place row index core.view))
      (final (tree.change cause place row payload)
        (core.note (.fired cause place row index core.view))) := by
    intro meeting
    have longer := (longer_blind.moving.change cause place row
      payload : Within Longer (tree.change cause place row payload)).final
        (core.note (.fired cause place row index core.view))
    obtain ⟨added, grown⟩ := longer
    rw [← grown] at meeting
    have before := meeting.before
    rw [grown] at meeting
    refine ⟨before, ?_⟩
    intro start
    exact observing.change cause place row payload index core.trace _ placed listed
      rfl before start meeting
  have performed : Upholds meets inv _ (final (tree.perform calls cause row payload
      (tree.change cause place row payload)) _) :=
    observing.upholds_quiet.perform nested changes
  exact upholds_frame.trans begins performed

theorem keeps : Keeps tree.toTables (Upholds meets inv) where
  toQuiet := observing.upholds_quiet
  completion calls nested place placed := observing.bodies nested .completion placed
  recover calls nested error site := by
    apply recover_walk_within upholds_frame
    · intro core
      have counted : Upholds meets inv core { core with serial := core.serial + 1 } :=
        fun meeting => ⟨meeting, observing.still rfl rfl rfl⟩
      exact upholds_frame.trans counted
        (observing.upholds_quiet.outer _ (.offered core.serial) trivial)
    · intro serial place error placed
      apply exception_code_within observing.upholds_quiet
      · exact observing.bodies nested (.exception serial) placed
      · exact fun core => upholds_note (observing.noted core _ trivial)
  dispatch calls nested event core := by
    apply dispatch_within observing.upholds_quiet
    · exact fun core meeting => ⟨meeting, observing.still rfl rfl rfl⟩
    · exact fun serial event place core =>
        upholds_note (observing.turn serial event place core)
    · exact fun serial place core => upholds_note (observing.noted core _ trivial)
    · exact fun serial place placed => observing.bodies nested (.event serial) placed

/-- The invariant holds at the end of every such run. -/
theorem reached {core : Core E} (reached : Reaches tree.toTables core)
    (meeting : Throughout meets core.trace) : inv core := by
  have carried : Throughout meets core.trace → inv core := by
    apply reached.invariant observing.keeps
    · intro before after upholds holds meeting
      exact (upholds meeting).2 (holds (upholds meeting).1)
    · exact fun world _ => observing.fresh world
    · exact observing.begun
  exact carried meeting

end Observing

end SmlRs.Macros
