/-
Module: SmlRs.Macros.Logging
Purpose: What the logger is told of the state changes of a run.
Trusted boundary: none
Main exports: replayed, logged, changes, logged_changes
-/
import SmlRs.Macros.Routing
import SmlRs.Macros.Steps

namespace SmlRs.Macros

open Lib

variable {E : Environment}

/-! ### The record of state changes -/

/-- The state changes that the logger was told of, newest first. -/
def logged : List (Happening E) → List (E.Ident × E.Ident) :=
  List.filterMap fun
    | .log_state_change old new => some (old, new)
    | _ => none

/-- Notes that neither change a state nor reach the logger. -/
def Happening.silent : Happening E → Prop
  | .replaced .. | .reset _ | .log_state_change .. => False
  | _ => True

namespace Tables

variable (tree : Tables E)

/-- The state of a slot by a record: its initial one, then the target of each
row that replaced it. -/
def replayed (place : Slot) : List (Happening E) → E.Ident
  | [] => tree.initial place
  | .reset other :: past =>
      if other = place then tree.initial place else replayed place past
  | .replaced other _ :: past =>
      if other = place then
        ((fired_at place past).map (·.2.1.out_state.ident)).getD E.X
      else replayed place past
  | _ :: past => replayed place past

/-- The replacements in a record, with the names of the states before and
behind each. -/
def changes : List (Happening E) → List (E.Ident × E.Ident)
  | [] => []
  | .replaced place held :: past =>
      (tree.replayed place past,
        tree.replayed place (.replaced place held :: past)) :: changes past
  | _ :: past => changes past

/-- A replacement is made by a row that reports it. -/
def heard : Happening E → List (Happening E) → Prop
  | .replaced place _, past =>
      (fired_at place past).all (fun begun => tree.reports begun.1 place) = true
  | _, _ => True

instance heard.decidable (happening : Happening E)
    (past : List (Happening E)) : Decidable (tree.heard happening past) :=
  match happening with
  | .replaced .. => inferInstanceAs (Decidable (_ = true))
  | .turn .. | .fired .. | .handled .. | .exited .. | .entered .. | .reset ..
  | .log_state_change .. | .faulted .. | .recovered .. | .raised .. | .offered ..
  | .recovering .. | .surfaced .. | .unentered .. | .follow_up .. | .queued ..
  | .put .. | .put_off .. | .released .. | .requeued .. | .dequeued ..
  | .failed => inferInstanceAs (Decidable True)

/-- The replacements in a record that are reported. -/
def heard_changes : List (Happening E) → List (E.Ident × E.Ident)
  | [] => []
  | .replaced place held :: past =>
      if tree.heard (.replaced place held) past then
        (tree.replayed place past,
          tree.replayed place (.replaced place held :: past)) ::
            heard_changes past
      else heard_changes past
  | _ :: past => heard_changes past

/-- The states of all slots are those of the record, and the logger was told of
the replacements that are reported. -/
structure Traced (core : Core E) : Prop where
  states : ∀ place,
    (core.view.state place).ident = tree.replayed place core.trace
  told : logged core.trace = tree.heard_changes core.trace

variable {tree}

theorem heard_changes_replaced {place : Slot} {held : E.Ident}
    {past : List (Happening E)} :
    tree.heard_changes (.replaced place held :: past) =
      if tree.heard (.replaced place held) past then
        (tree.replayed place past,
          tree.replayed place (.replaced place held :: past)) ::
            tree.heard_changes past
      else tree.heard_changes past := rfl

/-! ### Reported and unreported replacements -/

section Records

variable {happening : Happening E} {past record : List (Happening E)}

theorem heard_changes_length :
    (tree.heard_changes record).length ≤ (tree.changes record).length := by
  induction record with
  | nil => exact Nat.le_refl 0
  | cons happening past ih =>
    cases happening with
    | replaced place held =>
      unfold heard_changes changes
      split
      · exact Nat.succ_le_succ ih
      · exact Nat.le_succ_of_le ih
    | _ => exact ih

/-- All replacements are reported where each of them is. -/
theorem heard_changes_all :
    tree.heard_changes record = tree.changes record ↔
      Throughout tree.heard record := by
  induction record with
  | nil => exact ⟨fun _ => trivial, fun _ => rfl⟩
  | cons happening past ih =>
    cases happening with
    | replaced place held =>
      rw [throughout_cons]
      unfold heard_changes changes
      by_cases reported : tree.heard (.replaced place held) past
      · rw [if_pos reported, List.cons_inj_right, ih]
        exact (and_iff_right reported).symm
      · rw [if_neg reported]
        constructor
        · intro same
          have shorter : (tree.heard_changes past).length ≤
              (tree.changes past).length := tree.heard_changes_length
          rw [same] at shorter
          exact absurd shorter (Nat.not_succ_le_self _)
        · exact fun holds => absurd holds.1 reported
    | _ => exact ih.trans (and_iff_right trivial).symm

theorem replayed_silent (place : Slot) (silent : happening.silent) :
    tree.replayed place (happening :: past) = tree.replayed place past := by
  cases happening <;> first | rfl | cases silent

theorem heard_changes_silent (silent : happening.silent) :
    tree.heard_changes (happening :: past) = tree.heard_changes past := by
  cases happening <;> first | rfl | cases silent

theorem logged_silent (silent : happening.silent) :
    logged (happening :: past) = logged past := by
  cases happening <;> first | rfl | cases silent

end Records

/-! ### Steps -/

namespace Traced

variable {core : Core E}

theorem note {happening : Happening E} (traced : tree.Traced core)
    (silent : happening.silent) : tree.Traced (core.note happening) where
  states place :=
    (traced.states place).trans (replayed_silent place silent).symm
  told := by
    rw [Core.note_trace, logged_silent silent, heard_changes_silent silent]
    exact traced.told

/-- A step that neither adds to the record nor changes a state. -/
theorem same {core' : Core E} (traced : tree.Traced core)
    (states : core'.view.state = core.view.state)
    (trace : core'.trace = core.trace) : tree.Traced core' where
  states place := by
    rw [states, trace]
    exact traced.states place
  told := by
    rw [trace]
    exact traced.told

theorem reset_slot (traced : tree.Traced core) (place : Slot) :
    tree.Traced (final (tree.reset_slot place) core) where
  states other := by
    show (Function.update core.view.state place _ other).ident =
      if place = other then tree.initial other else _
    by_cases here : place = other
    · subst here
      simp
    · rw [if_neg here, Function.update_of_ne (Ne.symm here)]
      exact traced.states other
  told := traced.told

theorem arrived {cause : Cause} {place : Slot} {row : StateTransition E}
    {output : E.Data} (traced : tree.Traced core)
    (begun : Running cause place row core) :
    tree.Traced (tree.arrived cause place row output core) := by
  obtain ⟨before, running, _⟩ := begun
  have target : tree.replayed place
      (.replaced place (core.view.state place).ident :: core.trace) =
        row.out_state.ident := by
    simp [replayed, running]
  have moved (other : Slot) :
      (Function.update core.view.state place ⟨row.out_state.ident, output⟩
        other).ident = tree.replayed other
          (.replaced place (core.view.state place).ident :: core.trace) := by
    by_cases here : other = place
    · subst here
      rw [Function.update_self, target]
    · rw [Function.update_of_ne here, traced.states other]
      simp [replayed, Ne.symm here]
  have change : tree.heard_changes
      (.replaced place (core.view.state place).ident :: core.trace) =
        if tree.reports cause place then
          ((core.view.state place).ident, row.out_state.ident) ::
            tree.heard_changes core.trace
        else tree.heard_changes core.trace := by
    rw [heard_changes_replaced, target, ← traced.states place]
    simp [heard, running]
  unfold Tables.arrived
  dsimp only
  split
  · rename_i reported
    refine ⟨moved, ?_⟩
    rw [if_pos reported] at change
    show (_, _) :: logged core.trace = tree.heard_changes (.replaced place _ :: _)
    rw [change, traced.told]
  · rename_i unreported
    refine ⟨moved, ?_⟩
    rw [if_neg unreported] at change
    show logged core.trace = tree.heard_changes (.replaced place _ :: _)
    rw [change, traced.told]

end Traced

theorem traced_steps (matched : Prop) :
    Steps matched tree fun core core' => tree.Traced core → tree.Traced core' where
  frame :=
    { refl := fun _ => id
      trans := fun first second traced => second (first traced) }
  world _ _ traced := traced.same rfl rfl
  deferred _ _ traced := traced.same rfl rfl
  pending _ _ traced := traced.same rfl rfl
  outer _ happening outside traced := by
    apply traced.note
    cases happening <;> trivial
  exits place core _ _ _ traced := by
    have noted : tree.Traced (core.note (.exited place)) := traced.note trivial
    exact noted.same rfl rfl
  leaves _ place _ core _ _ _ traced := by
    have noted : tree.Traced (core.note (.exited place)) := traced.note trivial
    exact noted.same rfl rfl
  enters place core traced := by
    have cleared : tree.Traced (core.set (core.view.skip place false)) :=
      traced.same rfl rfl
    exact cleared.note trivial
  resets place _ traced := traced.reset_slot place
  arrives _ _ _ _ _ _ _ _ _ begun _ traced := traced.arrived begun
  unentered _ _ traced := traced.note trivial
  started _ _ _ traced := traced.note trivial
  fired _ _ _ _ _ _ traced := traced.note trivial
  turn _ _ _ _ traced := traced.note trivial
  handled _ _ _ traced := traced.note trivial
  recovering _ _ _ _ traced := traced.note trivial
  counted _ traced := traced.same rfl rfl

end Tables

/-! ### Runs -/

theorem Machine.traced {machine : Machine E} {core : Core E}
    (reached : machine.Reaches core) : machine.tables.Traced core :=
  machine.invariant (Tables.traced_steps _) (fun moved traced => moved traced)
    (fun _ => ⟨fun _ => rfl, rfl⟩) reached

/-- In every run the record shows the states that the slots hold, and the logger
was told of every replacement, in order and by the right names, exactly where
each replacement is made by a row that reports it. -/
theorem logged_changes {machine : Machine E} {core : Core E}
    (reached : machine.Reaches core) :
    (∀ place, (core.view.state place).ident =
        machine.tables.replayed place core.trace) ∧
      (logged core.trace = machine.tables.changes core.trace ↔
        Throughout machine.tables.heard core.trace) := by
  have traced := Machine.traced reached
  refine ⟨traced.states, ?_⟩
  rw [traced.told]
  exact Tables.heard_changes_all

/-! ### A table that is left unheard -/

/-- A root with tables in two of its states. In the first one an action fails,
and the row for the error goes to another state. -/
def mended : Tree sample where
  size := 3
  node
    | 0 =>
        { scalar 0 [1, 2]
            [{ in_state := nested 0, event := on 1, out_state := plain 1 },
             { in_state := plain 1, event := on 1, out_state := nested 2 }] with
          owner := 0, variant := Name.X, depth := 0 }
    | 1 =>
        { scalar 3 [4, 5]
            [{ in_state := plain 3, event := on 0, actions := [Name.fails],
               out_state := plain 4 },
             { in_state := plain 3,
               event :=
                 { kind := .exception, ident := Name.X, wildcard := true },
               out_state := plain 5 }] with
          owner := 0, variant := Name.state 0, depth := 1 }
    | 2 => { scalar 6 [] [] with owner := 0, variant := Name.state 2, depth := 1 }
    | _ => { scalar 7 [] [] with owner := 0, variant := Name.X, depth := 1 }
  size_pos := three_tables
  root_depth := by decide
  owner_lt := by decide
  depth_owner := by decide
  regions_pos := by decide
  variants := by decide
  in_composite := by decide
  out_composite := by decide

/-- The action fails, and the exception row runs. -/
def mended_run : Core sample :=
  final ((Machine.tree mended).process_event 5 ⟨Name.event 0, ()⟩)
    ((Machine.tree mended).new ())

theorem mended_run_reached : (Machine.tree mended).Reaches mended_run :=
  (@Machine.Reaches.new sample (.tree mended) ()).process_event 5
    ⟨Name.event 0, ()⟩

/-- The table has changed its state, and the logger was told of nothing. -/
theorem mended_run_unheard :
    (Machine.tree mended).Reaches mended_run ∧
      (mended.changes mended_run.trace).length = 1 ∧
      logged mended_run.trace ≠ mended.changes mended_run.trace :=
  ⟨mended_run_reached, by decide +kernel, by decide +kernel⟩

theorem logged_changes_mended :
    (∀ place, (mended_run.view.state place).ident =
        mended.replayed place mended_run.trace) ∧
      (logged mended_run.trace = mended.changes mended_run.trace ↔
        Throughout mended.heard mended_run.trace) :=
  logged_changes mended_run_reached

end SmlRs.Macros
