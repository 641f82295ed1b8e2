/-
Module: SmlRs.Macros.Termination
Purpose: Why the stabilization loop of a machine ends whose completion rows all
  lead on.
Trusted boundary: none
Main exports: Tables.Acyclic, Tables.Leaving, Tables.Calm, potential,
  Machine.Ends, stabilization_ends
-/
import Mathlib.Algebra.Order.BigOperators.Group.Finset
import SmlRs.Lib.Acyclic
import SmlRs.Macros.Failing
import SmlRs.Macros.Laps
import SmlRs.Macros.Steps
import SmlRs.Macros.Stability

namespace SmlRs.Macros

open Lib

variable {E : Environment}

/-! ### Tables whose completions lead on -/

/-- A completion row leads from a state to a different one. -/
def Table.completes (table : Table E) (source target : E.Ident) : Prop :=
  ∃ row ∈ table.transitions, row.event.kind = .completion ∧
    row.internal_transition = false ∧ row.in_state.ident = source ∧
      row.out_state.ident = target ∧ source ≠ target

namespace Tables

variable (tree : Tables E)

/-- A completion row of one of the tables. -/
def Completion (node : Nat) (row : StateTransition E) : Prop :=
  row ∈ (tree.node node).transitions ∧ row.event.kind = .completion

/-- In no table do the completions lead back to where they began. -/
def Acyclic : Prop :=
  ∀ node < tree.size, Lib.Acyclic (tree.node node).completes

/-- No completion row has a queue action. -/
def Unqueued : Prop :=
  ∀ node < tree.size, ∀ row, tree.Completion node row →
    row.process_events = [] ∧ row.defer = false

/-- Every completion row leaves its source. -/
def Leaving : Prop :=
  ∀ node < tree.size, ∀ row, tree.Completion node row →
    row.internal_transition = false ∧ row.out_state.ident ≠ row.in_state.ident

/-- No state change releases an event that is dispatched at once. -/
def Calm (core : Core E) : Prop :=
  tree.has_deferred_events = false ∨ tree.async_queue = true ∨
    core.deferred = []

variable {tree}

theorem Calm.same {core core' : Core E} (calm : tree.Calm core)
    (same : core'.deferred = core.deferred) : tree.Calm core' := by
  unfold Calm at *
  rw [same]
  exact calm

end Tables

/-! ### The queues behind a completion row -/

/-- The states of all slots stay as they are. -/
def Still (core core' : Core E) : Prop :=
  core'.view.state = core.view.state

theorem still_quiet : Quiet (Still (E := E)) where
  frame :=
    { refl := fun _ => rfl
      trans := fun first second => Eq.trans second first }
  world _ _ := rfl
  deferred _ _ := rfl
  pending _ _ := rfl
  outer _ _ _ := rfl

/-- The deferred queue stays as it is. -/
def Waits (core core' : Core E) : Prop :=
  core'.deferred = core.deferred

theorem waits_moving : Moving (Waits (E := E)) where
  frame :=
    { refl := fun _ => rfl
      trans := fun first second => Eq.trans second first }
  view _ _ := rfl
  moves _ _ _ := rfl

section Queues

variable {tree : Tables E} {calls : Calls E} {row : StateTransition E}
  {core last : Core E}

/-- The retries end when no event waits. -/
theorem retry_ok {fuel : Nat} (run : Tables.retry calls fuel core = .ok () last) :
    last.deferred = [] := by
  induction fuel generalizing core with
  | zero => cases run
  | succ fuel ih =>
    unfold Tables.retry at run
    rw [get_bind_run] at run
    cases waiting : core.deferred with
    | nil =>
      rw [waiting] at run
      cases run
      exact waiting
    | cons event rest =>
      rw [waiting] at run
      dsimp only at run
      rw [set_bind_run] at run
      obtain ⟨_, noted, note, run⟩ := bind_ok_iff.mp run
      obtain ⟨outcome, mid, _, run⟩ := bind_ok_iff.mp run
      split at run
      · exact ih run
      · exact ih run
      · exact ih run
      · cases run

theorem retry_empty (fuel : Nat) (empty : core.deferred = []) :
    Tables.retry calls (fuel + 1) core = .ok () core := by
  unfold Tables.retry
  rw [get_bind_run, empty]
  rfl

theorem process_code_plain (plain : row.process_events = []) :
    ∃ happening, tree.process_code calls row core =
      .ok () (core.note happening) := by
  unfold Tables.process_code
  split
  · exact ⟨.queued row.process_events (Tables.added core core), by
      unfold Tables.process_later
      rw [plain]
      rfl⟩
  · exact ⟨.queued row.process_events [], by
      unfold Tables.process_now
      rw [plain]
      rfl⟩

theorem requeue_raises :
    Raises (fun fault => fault = .queue_full) tree.requeue := by
  have putting (view : View E) (event : Event E) :
      Raises (fun fault => fault = .queue_full)
        (tree.requeue_one view event) := by
    apply Raises.changes
    apply Raises.changes
    apply Raises.seq
    · apply Raises.reads
      intro core
      split
      · exact Raises.modifies (fun _ => _)
      · exact Raises.throws rfl
    · exact fun _ => Raises.modifies _
  apply Raises.reads
  intro before
  apply Raises.seq
  · exact Raises.marked (Raises.forM fun event _ => putting before.view event)
  · exact fun _ => Raises.modifies _

variable (plain : row.process_events = []) (external : row.internal_transition = false)

include plain external

/-- Behind a completion row nothing waits for a state change, and if nothing did
before, the states stay as they are. -/
theorem queue_work_ok (run : tree.queue_work calls row core = .ok () last) :
    tree.Calm last ∧ (tree.Calm core → Still core last) := by
  obtain ⟨happening, processed⟩ : ∃ happening,
      tree.process_code calls row core = .ok () (core.note happening) :=
    process_code_plain plain
  unfold Tables.queue_work at run
  obtain ⟨_, mid, process, run⟩ := bind_ok_iff.mp run
  rw [processed] at process
  cases process
  unfold Tables.drain_deferred at run
  rw [external, Bool.not_false, Bool.and_true] at run
  split at run
  · rename_i deferring
    split at run
    · rename_i async
      refine ⟨.inr (.inl async), fun _ => ?_⟩
      have still : Within Still tree.requeue := requeue_within still_quiet
      have moved : Still (core.note happening) last := still.ok run
      exact moved
    · rename_i sync
      refine ⟨.inr (.inr (retry_ok run)), fun calm => ?_⟩
      have empty : core.deferred = [] := by
        rcases calm with never | async | empty
        · exact absurd deferring (by simp [never])
        · exact absurd async sync
        · exact empty
      cases bound : calls.fuel with
      | zero =>
        rw [bound] at run
        cases run
      | succ fuel =>
        rw [bound, retry_empty fuel (by exact empty)] at run
        cases run
        rfl
  · rename_i never
    cases run
    exact ⟨.inl (by simpa using never), fun _ => rfl⟩

theorem queue_work_fails {fault : Fault E} (positive : 0 < calls.fuel)
    (calm : tree.Calm core)
    (run : tree.queue_work calls row core = .error fault last) :
    fault = .queue_full := by
  obtain ⟨happening, processed⟩ : ∃ happening,
      tree.process_code calls row core = .ok () (core.note happening) :=
    process_code_plain plain
  unfold Tables.queue_work at run
  rw [bind_run, processed] at run
  unfold Tables.drain_deferred at run
  rw [external, Bool.not_false, Bool.and_true] at run
  dsimp only at run
  split at run
  · rename_i deferring
    split at run
    · exact requeue_raises.error trivial run
    · rename_i sync
      have empty : core.deferred = [] := by
        rcases calm with never | async | empty
        · exact absurd deferring (by simp [never])
        · exact absurd async sync
        · exact empty
      obtain ⟨fuel, bound⟩ := Nat.exists_eq_succ_of_ne_zero (by omega :
        calls.fuel ≠ 0)
      rw [bound, retry_empty fuel (by exact empty)] at run
      cases run
  · cases run

end Queues

/-! ### The state change of a completion row -/

/-- The states of the slots of a table and of the tables above it stay as they
are. -/
def Fixed (top : Nat) (core core' : Core E) : Prop :=
  ∀ place, place.node ≤ top → core'.view.state place = core.view.state place

theorem fixed_acting (top : Nat) : Acting (Fixed (E := E) top) where
  frame :=
    { refl := fun _ _ _ => rfl
      trans := fun first second place above =>
        (second place above).trans (first place above) }
  world _ _ _ _ := rfl

theorem tree_enter_fixed (tree : Tree E) (depth : Nat) (place : Slot) :
    Within (Fixed place.node) (tree.tree_enter_children depth place) := by
  have acting := fixed_acting (E := E) place.node
  induction depth generalizing place with
  | zero => exact Within.returns acting.frame _
  | succ depth ih =>
    apply Within.seq acting.frame (Within.gets acting.frame)
    intro core
    split
    · exact Within.returns acting.frame _
    rename_i node owned
    have below := tree.owner_lt_child owned
    have resets : Within (Fixed place.node)
        ((tree.slots node).forM tree.reset_slot) := by
      apply Within.forM acting.frame
      intro inner among core other above
      have here := (Tables.mem_slots.mp among).1
      apply Function.update_of_ne
      rintro rfl
      omega
    have enters : Within (Fixed place.node)
        ((tree.slots node).forM
          (tree.enter_slot (tree.tree_enter_children depth))) := by
      apply Within.forM acting.frame
      intro inner among
      have here := (Tables.mem_slots.mp among).1
      apply Within.seq acting.frame
      · exact Within.modifies fun _ _ _ => rfl
      intro _
      apply Within.seq acting.frame
      · exact Within.modifies fun _ _ _ => rfl
      intro _
      apply Within.seq acting.frame
      · exact Within.seq acting.frame (Within.gets acting.frame)
          fun _ => acting.action_calls _ _
      intro _
      apply (ih inner (fixed_acting _)).mono
      exact fun _ _ fixed other above => fixed other (by omega)
    unfold Tables.tree_enter_node
    dsimp only
    split
    · exact enters
    · exact Within.seq acting.frame resets fun _ => enters

/-- A row has led its slot to its target, and the other slots of its table and of
those above it hold what they held. -/
def Leads (place : Slot) (row : StateTransition E) (core core' : Core E) : Prop :=
  (core'.view.state place).ident = row.out_state.ident ∧
    ∀ other, other.node ≤ place.node → other ≠ place →
      core'.view.state other = core.view.state other

/-- The change of a row leads its slot on. -/
theorem change_leads {tree : Tree E} {cause : Cause} {place : Slot}
    {row : StateTransition E} {payload : Tables.Payload E} {core last : Core E}
    (external : row.internal_transition = false)
    (begun : Running cause place row core)
    (run : tree.change cause place row payload core = .ok () last) :
    Leads place row core last := by
  unfold Tables.change at run
  rw [external] at run
  change tree.move cause place row payload core = .ok () last at run
  unfold Tables.move at run
  obtain ⟨_, left, leaves, run⟩ := bind_ok_iff.mp run
  obtain ⟨output, acted, acts, run⟩ := bind_ok_iff.mp run
  have underway := (underway_exiting tree.toTables).leave payload external begun
  unfold final at underway
  rw [leaves] at underway
  have still := ((acts_acting.run_actions row payload).ok acts).2.1
  have same : acted.view.state = core.view.state := still.trans underway.1
  have entries : Within (Fixed place.node)
      (marking (fun _ => .unentered place)
        (tree.entries place row output)) := by
    have acting := fixed_acting (E := E) place.node
    apply marking_within acting.frame
    · exact Within.seq acting.frame (acting.action_calls _ _)
        fun _ => given_within acting.frame (tree_enter_fixed tree _ place)
    · exact fun _ _ _ _ => rfl
  rw [tree.arrive_run] at run
  have entered := entries.ok run
  have arrived : (tree.arrived cause place row output acted).view.state =
      Function.update core.view.state place ⟨row.out_state.ident, output⟩ := by
    rw [← same]
    unfold Tables.arrived
    dsimp only
    split
    · rfl
    · rfl
  constructor
  · rw [entered place (Nat.le_refl _), arrived, Function.update_self]
  · intro other above differs
    rw [entered other above, arrived, Function.update_of_ne differs]

theorem flat_change_leads {flat : Flat E} {row : StateTransition E}
    {payload : Tables.Payload E} {core last : Core E}
    (external : row.internal_transition = false)
    (run : flat.change row payload core = .ok () last) :
    (last.view.state Flat.slot).ident = row.out_state.ident := by
  unfold Flat.change at run
  rw [external] at run
  change flat.move row payload core = .ok () last at run
  unfold Flat.move at run
  obtain ⟨_, left, _, run⟩ := bind_ok_iff.mp run
  obtain ⟨output, acted, _, run⟩ := bind_ok_iff.mp run
  have entries : Within (Fixed 0)
      (marking (fun _ => .unentered Flat.slot) (flat.entries row)) := by
    have acting := fixed_acting (E := E) 0
    apply marking_within acting.frame
    · exact Within.seq acting.frame (call_hook_within acting _)
        fun _ => acting.action_calls _ _
    · exact fun _ _ _ _ => rfl
  have arrived : marking (fun _ => .unentered Flat.slot) (flat.entries row)
      (((((acted.note (.replaced Flat.slot
        (acted.view.state Flat.slot).ident)).set
          ((acted.view.replace Flat.slot ⟨row.out_state.ident, output⟩).skip
            Flat.slot false)).note (.entered Flat.slot)).note
              (.log_state_change row.in_state.ident row.out_state.ident))) =
        .ok () last := run
  have entered := entries.ok arrived Flat.slot (Nat.le_refl 0)
  rw [entered]
  simp

/-! ### One completion row -/

namespace Tables

variable (tree : Tables E)

/-- What a turn of a slot with its completions makes of a core: no row has run
(`false`), or rows for the state that it held have led it on (`true`). -/
def Progress (place : Slot) (start : Core E) : Bool → Core E → Prop
  | false, core =>
      core.view.state = start.view.state ∧ core.deferred = start.deferred
  | true, core =>
      tree.Calm core ∧ (tree.Calm start →
        ∃ row, tree.Completion place.node row ∧
          row.in_state.ident = (start.view.state place).ident ∧
            Leads place row start core)

/-- How a turn fails: with the error of a callback, or with a full queue unless
events are dispatched in it. -/
def Refused (start : Core E) (fault : Fault E) : Prop :=
  fault.error.isSome = true ∨ (tree.Calm start → fault = .queue_full)

variable {tree} {place : Slot} {start core : Core E} {handled : Bool}

theorem Progress.calm (progress : tree.Progress place start handled core)
    (calm : tree.Calm start) : tree.Calm core := by
  cases handled with
  | false => exact calm.same progress.2
  | true => exact progress.1

theorem Progress.others (progress : tree.Progress place start handled core)
    (calm : tree.Calm start) (other : Slot) (above : other.node ≤ place.node)
    (differs : other ≠ place) :
    core.view.state other = start.view.state other := by
  cases handled with
  | false => rw [progress.1]
  | true =>
    obtain ⟨_, _, _, leads⟩ := progress.2 calm
    exact leads.2 other above differs

end Tables

section Body

variable {calls : Calls E} (positive : 0 < calls.fuel) {cause : Cause}
  {row : StateTransition E} {payload : Tables.Payload E}
  {change : Effect E Unit} {core last : Core E}
  (external : row.internal_transition = false)
  (plain : row.process_events = [] ∧ row.defer = false)

include external plain

theorem perform_ok {tree : Tables E}
    (run : tree.perform calls cause row payload change core = .ok () last) :
    ∃ mid, change core = .ok () mid ∧ tree.Calm last ∧
      (tree.Calm mid → Still mid last) := by
  unfold Tables.perform at run
  obtain ⟨_, mid, changed, run⟩ := bind_ok_iff.mp run
  have ran : change core = .ok () mid := Flat.ok_of_marking changed
  unfold Tables.defer_code at run
  rw [plain.2] at run
  have work := Flat.ok_of_marking run
  exact ⟨mid, ran, queue_work_ok plain.1 external work⟩

include positive

theorem perform_fails {tree : Tables E} {fault : Fault E}
    (failing : Failing change) (waits : Within Waits change)
    (run : tree.perform calls cause row payload change core =
      .error fault last) : tree.Refused core fault := by
  unfold Tables.perform at run
  rw [bind_run] at run
  unfold marking marked at run
  cases changed : change core with
  | error fault' mid =>
    rw [changed] at run
    cases run
    exact .inl (failing.error trivial changed)
  | ok value mid =>
    rw [changed] at run
    dsimp only at run
    unfold Tables.defer_code at run
    rw [plain.2] at run
    right
    intro calm
    have calm : tree.Calm mid := calm.same (waits.ok changed)
    cases worked : tree.queue_work calls row mid with
    | ok value' last' =>
      have ends : (Lib.marked (fun fault core =>
        core.note (.surfaced cause fault)) (tree.queue_work calls row)) mid =
          .error fault last := run
      unfold marked at ends
      rw [worked] at ends
      cases ends
    | error fault' last' =>
      have ends : (Lib.marked (fun fault core =>
        core.note (.surfaced cause fault)) (tree.queue_work calls row)) mid =
          .error fault last := run
      unfold marked at ends
      rw [worked] at ends
      cases ends
      exact queue_work_fails plain.1 external positive calm worked

end Body

section Tree

variable {tree : Tree E} (unqueued : tree.Unqueued) (leaving : tree.Leaving)
  {calls : Calls E} (positive : 0 < calls.fuel) {place : Slot}
  (placed : tree.Placed place) {start : Core E}

include unqueued leaving positive placed

/-- A completion row for the state that the slot held. -/
theorem completion_body {row : StateTransition E}
    (completion : tree.Completion place.node row)
    (source : row.in_state.ident = (start.view.state place).ident)
    (payload : Tables.Payload E) (index : Nat) (handled : Bool) :
    Triple (tree.Progress place start handled)
      (tree.row_body calls .completion place row payload index)
      (fun _ => tree.Progress place start true)
      fun fault _ => tree.Refused start fault := by
  have external := (leaving place.node placed.1 row completion).1
  have plain := unqueued place.node placed.1 row completion
  intro core progress
  have begun := running_of_fired .completion place row index core
  have waits : Within Waits (tree.change .completion place row payload) :=
    waits_moving.change .completion place row payload
  have body : tree.row_body calls .completion place row payload index core =
      tree.perform calls .completion row payload
        (tree.change .completion place row payload)
        (core.note (.fired .completion place row index core.view)) := rfl
  rw [body]
  cases run : tree.perform calls .completion row payload
    (tree.change .completion place row payload)
    (core.note (.fired .completion place row index core.view)) with
  | ok value last =>
    obtain ⟨mid, changed, calm, still⟩ := perform_ok external plain run
    refine ⟨calm, fun started => ?_⟩
    have before : tree.Calm (core.note
        (.fired .completion place row index core.view)) :=
      progress.calm started
    have behind : tree.Calm mid := before.same (waits.ok changed)
    have leads := change_leads external begun changed
    have same : last.view.state = mid.view.state := still behind
    refine ⟨row, completion, source, ?_, fun other above differs => ?_⟩
    · rw [same]
      exact leads.1
    · rw [same, leads.2 other above differs]
      exact progress.others started other above differs
  | error fault last =>
    have refused := perform_fails positive external plain
      (Failing.change tree.toTables .completion place row payload) waits run
    exact refused.imp_right fun full started => full (progress.calm started)

theorem completion_branch {row : StateTransition E}
    (completion : tree.Completion place.node row)
    (source : row.in_state.ident = (start.view.state place).ident)
    (matched event_data : E.Data) (handled : Bool) :
    Triple (tree.Progress place start handled)
      (tree.branch calls .completion place matched event_data 0 row handled)
      (tree.Progress place start) fun fault _ => tree.Refused start fault := by
  intro core progress
  rw [Tables.branch_run]
  cases tree.branch_condition place matched event_data core.view (row, 0)
    handled with
  | error error => exact .inl rfl
  | ok runs =>
    cases runs with
    | false => exact progress
    | true =>
      have body := completion_body unqueued leaving positive placed completion
        source (tree.payload place matched event_data core.view row) 0 handled
      exact Triple.seq body
        (fun _ => Triple.returns fun _ progress => progress) core progress

/-- The rows of a completion arm of the state that the slot holds. -/
theorem run_completions_progress (event_data : E.Data)
    {arm : List (StateTransition E)}
    (completions : ∀ row ∈ arm, tree.Completion place.node row ∧
      row.in_state.ident = (start.view.state place).ident) :
    Triple (tree.Progress place start false)
      (tree.run_completions calls place event_data arm)
      (tree.Progress place start) fun fault _ => tree.Refused start fault := by
  apply Triple.reads
  intro core
  refine Triple.strengthen ?_ fun _ progress => progress.2
  dsimp only
  split
  · exact Triple.returns fun _ progress => progress
  apply Triple.fold
  intro handled row among
  obtain ⟨completion, source⟩ := completions row among
  apply Triple.reads
  intro core
  refine Triple.strengthen ?_ fun _ progress => progress.2
  split
  · exact Triple.returns fun _ progress => progress
  exact completion_branch unqueued leaving positive placed completion source _ _
    handled

omit unqueued leaving positive placed in
theorem mem_completion_rows {state : E.Ident} {row : StateTransition E}
    (among : row ∈ tree.rows place state) (kind : row.event.kind = .completion) :
    tree.Completion place.node row ∧ row.in_state.ident = state := by
  obtain ⟨declared, source⟩ := Tables.mem_rows among
  exact ⟨⟨declared, kind⟩, source⟩

theorem completion_code_progress (origin : Option (Event E)) :
    Triple (tree.Progress place start false)
      (tree.completion_code calls place origin) (tree.Progress place start)
      fun fault _ => tree.Refused start fault := by
  have held {core : Core E} (progress : tree.Progress place start false core) :
      (core.view.state place).ident = (start.view.state place).ident := by
    rw [progress.1]
  have asked : Triple (tree.Progress place start false)
      (tree.origin_code calls place origin) (tree.Progress place start)
      fun fault _ => tree.Refused start fault := by
    cases origin with
    | none => exact Triple.returns fun _ progress => progress
    | some event =>
      intro core progress
      refine run_completions_progress unqueued leaving positive placed _ ?_ core
        progress
      intro row among
      rw [held progress] at among
      have listed := Tables.mem_origin_arm among
      exact mem_completion_rows listed (Tables.kind_of_origin_arm among)
  apply asked.seq
  intro handled
  cases handled with
  | true => exact Triple.returns fun _ progress => progress
  | false =>
    intro core progress
    refine run_completions_progress unqueued leaving positive placed _ ?_ core
      progress
    intro row among
    rw [held progress] at among
    have listed := Tables.mem_anonymous_arm among
    exact mem_completion_rows listed (Tables.kind_of_anonymous_arm among)

end Tree

/-! ### The potential of a configuration -/

namespace Tables

variable (tree : Tables E)

/-- How far the completions of a slot can lead from a state. -/
noncomputable def height (place : Slot) (state : E.Ident) : Nat :=
  Lib.rank (tree.node place.node).completes
    ((tree.node place.node).transitions.map fun row =>
      row.out_state.ident).toFinset state

/-- The heights of the states of each table, those of the outer tables first. -/
noncomputable def potential (view : View E) : Lex (Fin tree.size → Nat) :=
  toLex fun node =>
    (Finset.range (tree.node node).regions.length).sum fun region =>
      tree.height ⟨node, region⟩ (view.state ⟨node, region⟩).ident

variable {tree}

theorem height_lt (acyclic : tree.Acyclic) (leaving : tree.Leaving)
    {place : Slot} (inside : place.node < tree.size) {row : StateTransition E}
    (completion : tree.Completion place.node row) :
    tree.height place row.out_state.ident <
      tree.height place row.in_state.ident := by
  obtain ⟨external, away⟩ := leaving place.node inside row completion
  apply Lib.rank_lt (acyclic place.node inside)
  · exact ⟨row, completion.1, completion.2, external, rfl, rfl, away.symm⟩
  · exact List.mem_toFinset.mpr (List.mem_map_of_mem completion.1)

theorem potential_lt (acyclic : tree.Acyclic) (leaving : tree.Leaving)
    {place : Slot} (placed : tree.Placed place) {row : StateTransition E}
    (completion : tree.Completion place.node row) {start core : Core E}
    (source : row.in_state.ident = (start.view.state place).ident)
    (leads : Leads place row start core) :
    tree.potential core.view < tree.potential start.view := by
  have falls := height_lt acyclic leaving placed.1 completion
  rw [source] at falls
  obtain ⟨node, number⟩ := place
  apply lex_lt ⟨node, placed.1⟩
  · intro earlier before
    have above : earlier.val < node := before
    apply Finset.sum_congr rfl
    intro region _
    rw [leads.2 ⟨earlier, region⟩ (Nat.le_of_lt above)]
    intro same
    rw [Slot.mk.injEq] at same
    omega
  · have here : number ∈ Finset.range (tree.node node).regions.length :=
      Finset.mem_range.mpr placed.2
    apply Finset.sum_lt_sum
    · intro region _
      by_cases same : region = number
      · subst same
        rw [leads.1]
        exact Nat.le_of_lt falls
      · rw [leads.2 ⟨node, region⟩ (Nat.le_refl node) (by simpa using same)]
    · refine ⟨number, here, ?_⟩
      rw [leads.1]
      exact falls

/-! ### One pass -/

variable (tree) in
/-- What a pass over completions makes of a core: nothing, or the potential has
fallen and no event waits for a state change. -/
def Pass (start : Core E) : Bool → Core E → Prop
  | false, core =>
      core.view.state = start.view.state ∧ core.deferred = start.deferred
  | true, core =>
      tree.Calm core ∧ (tree.Calm start →
        tree.potential core.view < tree.potential start.view)

theorem potential_same {start core : Core E}
    (same : core.view.state = start.view.state) :
    tree.potential core.view = tree.potential start.view := by
  unfold potential
  rw [same]

theorem Progress.pass (acyclic : tree.Acyclic) (leaving : tree.Leaving)
    {place : Slot} (placed : tree.Placed place) {start core : Core E}
    {handled : Bool} (progress : tree.Progress place start handled core) :
    tree.Pass start handled core := by
  cases handled with
  | false => exact progress
  | true =>
    refine ⟨progress.1, fun calm => ?_⟩
    obtain ⟨row, completion, source, leads⟩ := progress.2 calm
    exact potential_lt acyclic leaving placed completion source leads

theorem Pass.calm {start core : Core E} {handled : Bool}
    (pass : tree.Pass start handled core) (calm : tree.Calm start) :
    tree.Calm core := by
  cases handled with
  | false => exact calm.same pass.2
  | true => exact pass.1

theorem Pass.trans {start mid core : Core E} {first second : Bool}
    (one : tree.Pass start first mid) (two : tree.Pass mid second core) :
    tree.Pass start (first || second) core := by
  cases first with
  | false =>
    cases second with
    | false => exact ⟨two.1.trans one.1, two.2.trans one.2⟩
    | true =>
      refine ⟨two.1, fun calm => ?_⟩
      rw [← potential_same one.1]
      exact two.2 (one.calm calm)
  | true =>
    cases second with
    | false =>
      refine ⟨one.1.same two.2, fun calm => ?_⟩
      rw [potential_same two.1]
      exact one.2 calm
    | true => exact ⟨two.1, fun calm =>
        lt_trans (two.2 one.1) (one.2 calm)⟩

theorem Refused.before {start mid : Core E} {handled : Bool} {fault : Fault E}
    (refused : tree.Refused mid fault) (pass : tree.Pass start handled mid) :
    tree.Refused start fault :=
  refused.imp_right fun full calm => full (pass.calm calm)

end Tables

section Pass

variable {tree : Tree E} (acyclic : tree.Acyclic) (unqueued : tree.Unqueued)
  (leaving : tree.Leaving) {calls : Calls E} (positive : 0 < calls.fuel)
  (origin : Option (Event E)) (settled : Nat → Bool) {start : Core E}

include acyclic unqueued leaving positive

theorem completion_site_pass {place : Slot} (placed : tree.Placed place)
    (mid : Core E) :
    Triple (· = mid) (tree.completion_site calls origin settled place)
      (tree.Pass mid) fun failure _ => tree.Refused mid failure.2 := by
  unfold Tables.completion_site
  split
  · apply Triple.returns
    rintro _ rfl
    exact ⟨rfl, rfl⟩
  apply Triple.tagged
  have code := @completion_code_progress _ _ unqueued leaving _ positive _ placed
    mid origin
  apply code.conseq
  · rintro _ rfl
    exact ⟨rfl, rfl⟩
  · exact fun _ _ progress => progress.pass acyclic leaving placed
  · exact fun _ _ refused => refused

omit acyclic unqueued leaving positive in
/-- One more part of a pass. -/
theorem pass_onward {part : Tables.Completing E Bool}
    (parts : ∀ mid, Triple (· = mid) part (tree.Pass mid)
      fun failure _ => tree.Refused mid failure.2) (handled : Bool) :
    Triple (tree.Pass start handled)
      (do let ran ← part; pure (handled || ran)) (tree.Pass start)
      fun failure _ => tree.Refused start failure.2 := by
  intro mid pass
  have run := parts mid mid rfl
  rw [bind_run]
  cases ran : part mid with
  | ok value core =>
    rw [ran] at run
    exact pass.trans run
  | error failure core =>
    rw [ran] at run
    exact run.before pass

theorem node_completions_pass {node : Nat} (among : node ∈ tree.blocks ++ [0])
    (mid : Core E) :
    Triple (· = mid) (tree.node_completions calls origin settled node)
      (tree.Pass mid) fun failure _ => tree.Refused mid failure.2 := by
  have slots : Triple (tree.Pass mid false)
      (tree.node_completions calls origin settled node) (tree.Pass mid)
      fun failure _ => tree.Refused mid failure.2 := by
    apply Triple.fold
    intro handled place inside
    have placed := tree.placed_of_walk among inside
    exact pass_onward (completion_site_pass acyclic unqueued leaving positive
      origin settled placed) handled
  apply slots.strengthen
  rintro _ rfl
  exact ⟨rfl, rfl⟩

/-- A pass of the stabilization loop. -/
theorem completion_step_pass (mid : Core E) :
    Triple (· = mid) (tree.completion_step calls origin settled) (tree.Pass mid)
      fun failure _ => tree.Refused mid failure.2 := by
  have nodes : Triple (tree.Pass mid false)
      (tree.completion_step calls origin settled) (tree.Pass mid)
      fun failure _ => tree.Refused mid failure.2 := by
    apply Triple.fold
    intro handled node among
    apply Triple.reads
    intro core
    refine Triple.strengthen ?_ fun _ pass => pass.2
    cases handled with
    | true => exact Triple.returns fun _ pass => pass
    | false =>
      rw [Bool.false_or]
      split
      · exact Triple.returns fun _ pass => pass
      intro before pass
      have run := node_completions_pass acyclic unqueued leaving positive origin
        settled among before before rfl
      cases ran : tree.node_completions calls origin settled node before with
      | ok value core =>
        rw [ran] at run
        exact pass.trans run
      | error failure core =>
        rw [ran] at run
        exact run.before pass
  apply nodes.strengthen
  rintro _ rfl
  exact ⟨rfl, rfl⟩

end Pass

/-! ### Flat machines -/

namespace Flat

variable (flat : Flat E)

/-- What a step of the loop of a flat machine makes of a core. -/
def Pass (start : Core E) : Bool → Core E → Prop
  | false, core => core = start
  | true, core =>
      flat.tables.Calm core ∧ (flat.tables.Calm start →
        flat.tables.height slot (core.view.state slot).ident <
          flat.tables.height slot (start.view.state slot).ident)

variable {flat}

/-- The rows that a state has for its completion. -/
def CompletionArm (flat : Flat E) (state : E.Ident)
    (arm : List (StateTransition E × Nat)) : Prop :=
  ∀ item ∈ arm, flat.tables.Completion 0 item.1 ∧
    item.1.in_state.ident = state

theorem completion_of_mapping {state : E.Ident}
    {shared : StateTransition E → Bool}
    (kind : ∀ row, shared row = true → row.event.kind = .completion) :
    flat.CompletionArm state (flat.mapping state shared) := by
  intro item among
  have listed := List.fst_mem_of_mem_zipIdx among
  obtain ⟨declared, source⟩ := mem_mapping among
  exact ⟨⟨declared, kind item.1 (List.mem_filter.mp listed).2⟩, source.symm⟩

theorem kind_of_triggered {event : E.Ident} (row : StateTransition E)
    (triggered : row.triggered .completion event = true) :
    row.event.kind = .completion := by
  simp only [StateTransition.triggered, Bool.and_eq_true,
    decide_eq_true_eq] at triggered
  exact triggered.1.1

theorem kind_of_anonymous (row : StateTransition E)
    (anonymous : row.anonymous .completion = true) :
    row.event.kind = .completion := by
  simp only [StateTransition.anonymous, Bool.and_eq_true,
    decide_eq_true_eq] at anonymous
  exact anonymous.1

theorem completion_of_arm (state event : E.Ident) :
    flat.CompletionArm state (flat.completion_arm state event) := by
  intro item among
  obtain ⟨mapping, inside, here⟩ := mem_first_of among
  simp only [List.mem_cons, List.not_mem_nil, or_false] at inside
  rcases inside with rfl | rfl
  · exact completion_of_mapping kind_of_triggered item here
  · exact completion_of_mapping kind_of_anonymous item here

variable (acyclic : flat.tables.Acyclic) (unqueued : flat.tables.Unqueued)
  (leaving : flat.tables.Leaving) {calls : Calls E} (positive : 0 < calls.fuel)
  {start : Core E}

include acyclic unqueued leaving positive

theorem row_body_pass {row : StateTransition E}
    (completion : flat.tables.Completion 0 row)
    (source : row.in_state.ident = (start.view.state slot).ident)
    (payload : Tables.Payload E) (index : Nat) :
    Triple (· = start) (flat.row_body calls .completion row payload index)
      (fun _ => flat.Pass start true)
      fun fault _ => flat.tables.Refused start fault := by
  have inside : 0 < flat.tables.size := Nat.zero_lt_one
  have external := (leaving 0 inside row completion).1
  have plain := unqueued 0 inside row completion
  have waits : Within Waits (flat.change row payload) :=
    flat_change_within waits_moving row payload
  rintro core rfl
  have body : flat.row_body calls .completion row payload index core =
      flat.tables.perform calls .completion row payload
        (flat.change row payload)
        (core.note (.fired .completion slot row index core.view)) := rfl
  rw [body]
  cases run : flat.tables.perform calls .completion row payload
    (flat.change row payload)
    (core.note (.fired .completion slot row index core.view)) with
  | ok value last =>
    obtain ⟨mid, changed, calm, still⟩ := perform_ok external plain run
    refine ⟨calm, fun started => ?_⟩
    have before : flat.tables.Calm (core.note
        (.fired .completion slot row index core.view)) := started
    have same : last.view.state = mid.view.state :=
      still (before.same (waits.ok changed))
    have falls := @Tables.height_lt _ _ acyclic leaving slot inside _ completion
    rw [same, flat_change_leads external changed, ← source]
    exact falls
  | error fault last =>
    have refused : flat.tables.Refused (core.note
        (.fired .completion slot row index core.view)) fault :=
      perform_fails positive external plain
        (Failing.flat_change flat row payload) waits run
    exact refused

theorem try_rows_pass {arm : List (StateTransition E × Nat)}
    (completions : flat.CompletionArm (start.view.state slot).ident arm)
    (payload : Tables.Payload E) :
    Triple (· = start) (flat.try_rows calls .completion payload arm)
      (flat.Pass start) fun fault _ => flat.tables.Refused start fault := by
  induction arm with
  | nil => exact Triple.returns fun _ same => same
  | cons item rest ih =>
    obtain ⟨row, index⟩ := item
    obtain ⟨completion, source⟩ := completions (row, index) (by simp)
    have further := ih fun item among => completions item (by simp [among])
    have tried : Triple (· = start)
        (flat.transition_code calls .completion row payload index)
        (flat.Pass start) fun fault _ => flat.tables.Refused start fault := by
      rintro core rfl
      rw [transition_code_run]
      cases Tables.row_enabled row payload core.view.world index with
      | error error => exact .inl rfl
      | ok enabled =>
        cases enabled with
        | false => exact rfl
        | true =>
          have body := row_body_pass acyclic unqueued leaving positive completion
            source payload index
          exact Triple.seq body
            (fun _ => Triple.returns fun _ pass => pass) core rfl
    apply tried.seq
    intro ran
    cases ran with
    | true => exact Triple.returns fun _ pass => pass
    | false => exact further

/-- A step of the loop behind an event. -/
theorem process_completion_pass (origin : Event E) :
    Triple (· = start) (flat.process_completion calls origin) (flat.Pass start)
      fun fault _ => flat.tables.Refused start fault := by
  rintro core rfl
  exact try_rows_pass acyclic unqueued leaving positive
    (completion_of_arm _ _) _ core rfl

/-- A step of the loop of `initialize`. -/
theorem process_anonymous_completion_pass :
    Triple (· = start) (flat.process_anonymous_completion calls)
      (flat.Pass start) fun fault _ => flat.tables.Refused start fault := by
  rintro core rfl
  exact try_rows_pass acyclic unqueued leaving positive
    (completion_of_mapping kind_of_anonymous) _ core rfl

end Flat

/-! ### Machines of either kind -/

namespace Machine

/-- One pass of the stabilization loop: whether a completion row has run. -/
def completion_step (machine : Machine E) (calls : Calls E)
    (origin : Option (Event E)) : Effect E Bool :=
  match machine, origin with
  | .flat code, some event => code.process_completion calls event
  | .flat code, none => code.process_anonymous_completion calls
  | .tree code, origin =>
      tagged Prod.snd id (code.completion_step calls origin fun _ => false)

/-- The stabilization loop of `process_event` and `initialize`. -/
def stabilize_loop (machine : Machine E) (calls : Calls E) (fuel : Nat)
    (origin : Option (Event E)) : Effect E Unit :=
  match machine with
  | .flat code =>
      Flat.complete ((Machine.flat code).completion_step calls origin) fuel
  | .tree code => do
      let _ ← code.stabilize_loop calls fuel origin fun _ => false

/-- Behind its entries `initialize` is the loop without an origin event. -/
theorem initialize_unlocked_loop (machine : Machine E) (fuel : Nat) :
    machine.initialize_unlocked fuel = (do
      machine.initial_entries
      machine.stabilize_loop ⟨machine.process_event fuel, fuel⟩ fuel none) := by
  cases machine with
  | flat code => rfl
  | tree code => rfl

/-- The calls that a machine nests in a pass, at most so deep. -/
abbrev nested (machine : Machine E) (depth : Nat) : Calls E :=
  ⟨machine.process_event (depth + 1), depth + 1⟩

/-- A pass in which a completion row runs. -/
def Lap (machine : Machine E) (calls : Calls E) (origin : Option (Event E))
    (core : Core E) (_ : Unit) (core' : Core E) : Prop :=
  machine.completion_step calls origin core = .ok true core'

/-- Such passes, one behind the other. -/
abbrev Laps (machine : Machine E) (calls : Calls E)
    (origin : Option (Event E)) : Core E → List Unit → Core E → Prop :=
  Trace (machine.Lap calls origin)

/-- No callback fails in the passes from a core on. -/
def Faultless (machine : Machine E) (calls : Calls E)
    (origin : Option (Event E)) (core : Core E) : Prop :=
  ∀ laps last fault core', machine.Laps calls origin core laps last →
    machine.completion_step calls origin last = .error fault core' →
      fault.error = none

/-- The loop ends: from some number of passes on, more of them make no
difference. -/
def Ends (machine : Machine E) (calls : Calls E) (origin : Option (Event E))
    (core : Core E) : Prop :=
  ∃ bound outcome,
    (∀ fuel, bound ≤ fuel →
      machine.stabilize_loop calls fuel origin core = outcome) ∧
    ∀ core', outcome ≠ .error .diverged core'

variable {machine : Machine E} {calls : Calls E} {origin : Option (Event E)}
  {core last core' : Core E}

theorem stabilize_loop_succ (fuel : Nat)
    (ran : machine.completion_step calls origin core = .ok true core') :
    machine.stabilize_loop calls (fuel + 1) origin core =
      machine.stabilize_loop calls fuel origin core' := by
  cases machine with
  | flat code =>
    show (Machine.completion_step _ calls origin >>= _) core = _
    rw [bind_run, ran]
    rfl
  | tree code =>
    have step : code.completion_step calls origin (fun _ => false) core =
        .ok true core' := ok_of_tagged ran
    have lap : code.Lap calls ⟨core, origin, fun _ => false⟩ none
        ⟨core', origin, fun _ => false⟩ := .completed step
    have onward := lap.loops fuel
    unfold Loop.rest at onward
    show (code.stabilize_loop calls (fuel + 1) origin (fun _ => false) >>= _)
      core = (code.stabilize_loop calls fuel origin (fun _ => false) >>= _) core'
    rw [bind_run, bind_run, onward]

theorem stabilize_loop_laps {laps : List Unit} (fuel : Nat)
    (run : machine.Laps calls origin core laps last) :
    machine.stabilize_loop calls (fuel + laps.length) origin core =
      machine.stabilize_loop calls fuel origin last := by
  induction run generalizing fuel with
  | nil => rfl
  | @snoc _ _ earlier _ _ one ih =>
    have ran := ih (fuel + 1)
    rw [stabilize_loop_succ fuel one] at ran
    rw [← ran, List.length_append, List.length_singleton]
    congr 1
    omega

/-- The loop ends with a pass in which no row runs. -/
theorem stabilize_loop_stops (fuel : Nat)
    (idle : machine.completion_step calls origin core = .ok false core') :
    machine.stabilize_loop calls (fuel + 1) origin core = .ok () core' := by
  cases machine with
  | flat code =>
    show (Machine.completion_step _ calls origin >>= _) core = _
    rw [bind_run, idle]
    rfl
  | tree code =>
    have step : code.completion_step calls origin (fun _ => false) core =
        .ok false core' := ok_of_tagged idle
    show (code.stabilize_loop calls (fuel + 1) origin (fun _ => false) >>= _)
      core = _
    unfold Tables.stabilize_loop
    rw [bind_run, bind_run]
    unfold attempt
    rw [step]
    rfl

/-- So it does with a fault that is not the error of a callback. -/
theorem stabilize_loop_fails (fuel : Nat) {fault : Fault E}
    (fails : machine.completion_step calls origin core = .error fault core')
    (plain : fault.error = none) :
    machine.stabilize_loop calls (fuel + 1) origin core =
      .error fault core' := by
  cases machine with
  | flat code =>
    show (Machine.completion_step _ calls origin >>= _) core = _
    rw [bind_run, fails]
  | tree code =>
    obtain ⟨failure, mid, step, rfl, rfl⟩ := error_of_tagged fails
    show (code.stabilize_loop calls (fuel + 1) origin (fun _ => false) >>= _)
      core = _
    unfold Tables.stabilize_loop
    rw [bind_run, bind_run]
    unfold attempt
    rw [step]
    obtain ⟨site, fault⟩ := failure
    dsimp only at plain ⊢
    rw [plain]
    rfl

/-- A pass over the completions of a machine falls, and is refused only as one
of its callbacks is or by a full queue. -/
theorem completion_step_falls (acyclic : machine.tables.Acyclic)
    (unqueued : machine.tables.Unqueued) (leaving : machine.tables.Leaving)
    (positive : 0 < calls.fuel) :
    (∃ (Measure : Type) (_ : LT Measure) (_ : WellFoundedLT Measure)
      (measure : Core E → Measure),
        ∀ core core', machine.completion_step calls origin core =
          .ok true core' → machine.tables.Calm core' ∧
            (machine.tables.Calm core → measure core' < measure core)) ∧
    ∀ core fault core', machine.completion_step calls origin core =
      .error fault core' → machine.tables.Refused core fault := by
  cases machine with
  | flat code =>
    have pass (core : Core E) : Triple (· = core)
        ((Machine.flat code).completion_step calls origin) (code.Pass core)
        fun fault _ => code.tables.Refused core fault := by
      cases origin with
      | none =>
        exact Flat.process_anonymous_completion_pass acyclic unqueued leaving
          positive
      | some event =>
        exact Flat.process_completion_pass acyclic unqueued leaving positive
          event
    refine ⟨⟨Nat, inferInstance, inferInstance, fun core =>
      code.tables.height Flat.slot (core.view.state Flat.slot).ident, ?_⟩, ?_⟩
    · exact fun core core' ran => (pass core).ok rfl ran
    · exact fun core fault core' failed => (pass core).error rfl failed
  | tree code =>
    have pass (core : Core E) : Triple (· = core)
        ((Machine.tree code).completion_step calls origin) (code.Pass core)
        fun fault _ => code.Refused core fault :=
      Triple.tagged (completion_step_pass acyclic unqueued leaving positive origin
        (fun _ => false) core)
    refine ⟨⟨Lex (Fin code.size → Nat), inferInstance, inferInstance,
      fun core => code.potential core.view, ?_⟩, ?_⟩
    · exact fun core core' ran => (pass core).ok rfl ran
    · exact fun core fault core' failed => (pass core).error rfl failed

end Machine

/-- A completion with a target, and no other row. -/
def settling : Flat sample where
  table := scalar 0 [1] [completes 0 1]

theorem settling_completion {row : StateTransition sample}
    (completion : settling.tables.Completion 0 row) : row = completes 0 1 := by
  have declared : row ∈ [completes 0 1] := completion.1
  simpa using declared

theorem settling_change (payload : Tables.Payload sample)
    (core : Core sample) :
    ∃ last, settling.change (completes 0 1) payload core = .ok () last := by
  have left : ∃ mid, settling.leave (completes 0 1) core = .ok () mid := by
    unfold Flat.leave
    rw [get_bind_run]
    generalize core.view.exit_skip Flat.slot = token
    cases token with
    | true => exact ⟨_, rfl⟩
    | false => exact ⟨_, rfl⟩
  obtain ⟨mid, left⟩ := left
  have rest : ∃ last, (do
      let output ← Tables.run_actions (completes 0 1) payload
      settling.arrive (completes 0 1) output : Effect sample Unit) mid =
        .ok () last := ⟨_, rfl⟩
  obtain ⟨last, arrived⟩ := rest
  exact ⟨last, bind_ok_iff.mpr ⟨(), mid, left, arrived⟩⟩

theorem settling_step (calls : Calls sample) (core : Core sample) :
    ∃ ran core', (Machine.flat settling).completion_step calls none core =
      .ok ran core' := by
  have asked : (Machine.flat settling).completion_step calls none core =
      settling.try_rows calls .completion ⟨(core.view.state Flat.slot).data, ()⟩
        (settling.mapping (core.view.state Flat.slot).ident fun row =>
          row.anonymous .completion) core := rfl
  rw [asked]
  by_cases held : (core.view.state Flat.slot).ident = Name.state 0
  · obtain ⟨last, changed⟩ := settling_change
      ⟨(core.view.state Flat.slot).data, ()⟩
      (core.note (.fired .completion Flat.slot (completes 0 1) 0 core.view))
    have marked : marking (fun _ => .raised .completion)
        (settling.change (completes 0 1)
          ⟨(core.view.state Flat.slot).data, ()⟩)
        (core.note (.fired .completion Flat.slot (completes 0 1) 0 core.view)) =
          .ok () last := by
      unfold marking Lib.marked
      rw [changed]
    have ran : settling.row_body calls .completion (completes 0 1)
        ⟨(core.view.state Flat.slot).data, ()⟩ 0 core =
          .ok () (last.note (.queued [] [])) := by
      have performed : settling.tables.perform calls .completion (completes 0 1)
          ⟨(core.view.state Flat.slot).data, ()⟩
          (settling.change (completes 0 1)
            ⟨(core.view.state Flat.slot).data, ()⟩)
          (core.note (.fired .completion Flat.slot (completes 0 1) 0
            core.view)) = .ok () (last.note (.queued [] [])) :=
        bind_ok_iff.mpr ⟨(), last, marked, rfl⟩
      exact performed
    have tried : settling.transition_code calls .completion (completes 0 1)
        ⟨(core.view.state Flat.slot).data, ()⟩ 0 core =
          .ok true (last.note (.queued [] [])) := by
      rw [Flat.transition_code_run]
      exact bind_ok_iff.mpr ⟨(), _, ran, rfl⟩
    rw [held]
    exact ⟨true, _, bind_ok_iff.mpr ⟨true, _, tried, rfl⟩⟩
  · have none_here : settling.mapping (core.view.state Flat.slot).ident
        (fun row => row.anonymous .completion) = [] := by
      simp [Flat.mapping, Table.rows, settling, scalar, completes, plain,
        Ne.symm held]
    rw [none_here]
    exact ⟨false, core, rfl⟩

/-- The row of a completion that stays where it is. -/
def idle_completion : StateTransition sample where
  in_state := plain 0
  event := { kind := .completion, ident := Name.X, wildcard := true }
  out_state := plain 0
  internal_transition := true

/-- The completion of the only state stays in it. -/
def spinning : Flat sample where
  table := scalar 0 [] [idle_completion]

theorem spinning_step (calls : Calls sample) (core : Core sample)
    (held : (core.view.state Flat.slot).ident = Name.state 0) :
    (Machine.flat spinning).completion_step calls none core =
      .ok true ((core.note
        (.fired .completion Flat.slot idle_completion 0 core.view)).note
          (.queued [] [])) := by
  show spinning.try_rows calls .completion _ (spinning.mapping
    (core.view.state Flat.slot).ident fun row => row.anonymous .completion)
      core = _
  rw [held]
  rfl

theorem spinning_loop (calls : Calls sample) (fuel : Nat) (core : Core sample)
    (held : (core.view.state Flat.slot).ident = Name.state 0) :
    ∃ core', (Machine.flat spinning).stabilize_loop calls fuel none core =
      .error .diverged core' := by
  induction fuel generalizing core with
  | zero => exact ⟨core, rfl⟩
  | succ fuel ih =>
    rw [Machine.stabilize_loop_succ fuel (spinning_step calls core held)]
    exact ih _ held

theorem spinning_completion {row : StateTransition sample}
    (completion : spinning.tables.Completion 0 row) : row = idle_completion := by
  have declared : row ∈ [idle_completion] := completion.1
  simpa using declared

end SmlRs.Macros
