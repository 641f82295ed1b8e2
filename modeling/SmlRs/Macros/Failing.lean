/-
Module: SmlRs.Macros.Failing
Purpose: With which faults the change of a row fails.
Trusted boundary: none
Main exports: Failing, change_failing, flat_change_failing
-/
import SmlRs.Macros.Flat
import SmlRs.Macros.Machine

namespace SmlRs.Macros

open Lib

variable {E : Environment} {α : Type}

/-- It fails with the error of a guard or of an action only. -/
def Failing (effect : Effect E α) : Prop :=
  Raises (fun fault => fault.error.isSome = true) effect

namespace Failing

theorem call_action (action : E.Ident) (args : List E.Data) :
    Failing (call_action action args) := by
  apply Raises.reads
  intro core
  dsimp only
  apply Raises.changes
  cases (E.action action args core.view.world).1 with
  | ok value => exact Raises.returns value
  | error error => exact Raises.throws rfl

theorem action_calls (actions : List E.Ident) (args : List E.Data) :
    Failing (action_calls actions args) := by
  apply Raises.forM
  intro action _
  exact Raises.seq (call_action action args) fun _ => Raises.returns _

theorem run_items (args : List E.Data) (items : List (Item E)) :
    Failing (run_items args items) := by
  refine Raises.foldlM (fun output item _ => ?_) _
  cases item with
  | call action => exact call_action action args
  | eval guard action =>
    apply Raises.reads
    intro core
    apply Raises.seq
    · cases guard_value args core.view.world guard.expression with
      | ok value => exact Raises.returns value
      | error error => exact Raises.throws rfl
    intro passed
    split
    · exact Raises.seq (call_action action args) fun _ => Raises.returns _
    · exact Raises.returns _

theorem run_actions (row : StateTransition E) (payload : Tables.Payload E) :
    Failing (Tables.run_actions row payload) :=
  Raises.seq (run_items _ _) fun _ => Raises.returns _

theorem given {condition : Bool} {effect : Effect E Unit}
    (failing : Failing effect) : Failing (given condition effect) := by
  unfold Macros.given
  split
  · exact failing
  · exact Raises.returns _

/-! ### Trees -/

section Tree

variable (tree : Tables E)

theorem current_lifecycle (kind : EventKind) (place : Slot) :
    Failing (tree.current_lifecycle kind place) :=
  Raises.reads fun _ => action_calls _ _

theorem tree_exit_children (depth : Nat) (place : Slot) :
    Failing (tree.tree_exit_children depth place) := by
  induction depth generalizing place with
  | zero => exact Raises.returns _
  | succ depth ih =>
    apply Raises.reads
    intro core
    split
    · exact Raises.returns _
    apply Raises.forM
    intro inner _
    apply Raises.reads
    intro core
    split
    · exact Raises.returns _
    apply Raises.seq (ih inner)
    intro _
    apply Raises.seq (current_lifecycle tree _ _)
    intro _
    exact Raises.changes (Raises.modifies _)

theorem enter_slot {nested : Slot → Effect E Unit}
    (enters : ∀ inner, Failing (nested inner)) (place : Slot) :
    Failing (tree.enter_slot nested place) := by
  apply Raises.changes
  apply Raises.changes
  exact Raises.seq (current_lifecycle tree _ _) fun _ => enters place

theorem tree_enter_children (depth : Nat) (place : Slot) :
    Failing (tree.tree_enter_children depth place) := by
  induction depth generalizing place with
  | zero => exact Raises.returns _
  | succ depth ih =>
    apply Raises.reads
    intro core
    split
    · exact Raises.returns _
    have enters (node : Nat) :
        Failing ((tree.slots node).forM
          (tree.enter_slot (tree.tree_enter_children depth))) :=
      Raises.forM fun inner _ => enter_slot tree ih inner
    unfold Tables.tree_enter_node
    dsimp only
    split
    · exact enters _
    · apply Raises.seq
      · apply Raises.forM
        intro inner _
        exact Raises.changes (Raises.modifies _)
      · exact fun _ => enters _

/-- The change of a row of a tree. -/
theorem change (cause : Cause) (place : Slot) (row : StateTransition E)
    (payload : Tables.Payload E) :
    Failing (tree.change cause place row payload) := by
  unfold Tables.change
  split
  · exact Raises.seq (run_items _ _) fun _ => Raises.returns _
  apply Raises.seq
  · apply Raises.reads
    intro core
    apply Raises.seq
    · unfold Tables.exits
      split
      · exact Raises.modifies _
      apply Raises.seq (given (tree_exit_children tree _ _))
      intro _
      exact Raises.seq (action_calls _ _) fun _ => Raises.modifies _
    · exact fun _ => Raises.modifies _
  intro _
  apply Raises.seq (run_actions row payload)
  intro output
  apply Raises.reads
  intro core
  apply Raises.changes
  apply Raises.changes
  apply Raises.changes
  apply Raises.changes
  apply Raises.seq (given (Raises.modifies _))
  intro _
  apply Raises.marked
  exact Raises.seq (action_calls _ _)
    fun _ => given (tree_enter_children tree _ _)

end Tree

/-! ### Flat machines -/

/-- The change of a row of a flat machine. -/
theorem flat_change (flat : Flat E) (row : StateTransition E)
    (payload : Tables.Payload E) : Failing (flat.change row payload) := by
  unfold Flat.change
  split
  · exact Raises.seq (run_items _ _) fun _ => Raises.returns _
  apply Raises.seq
  · apply Raises.reads
    intro core
    apply Raises.seq
    · unfold Flat.exits
      split
      · exact Raises.modifies _
      apply Raises.changes
      exact Raises.seq (action_calls _ _) fun _ => Raises.modifies _
    · exact fun _ => Raises.modifies _
  intro _
  apply Raises.seq (run_actions row payload)
  intro output
  apply Raises.reads
  intro core
  apply Raises.changes
  apply Raises.changes
  apply Raises.changes
  apply Raises.changes
  apply Raises.changes
  apply Raises.marked
  exact Raises.changes (action_calls _ _)

end Failing

end SmlRs.Macros
