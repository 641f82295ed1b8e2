/-
Module: SmlRs.Macros.Lifecycle
Purpose: What the lifecycle rows of a table declare, and which of it is left in the
  hooks that are generated for its states.
Trusted boundary: none
Main exports: Surroundings, Honours, honours_iff, Machine.Honoured,
  lifecycle_honoured_iff
-/
import SmlRs.Lib.Couple
import SmlRs.Lib.Merge
import SmlRs.Macros.Machines
import SmlRs.Macros.Routing
import SmlRs.Macros.Wildcards

namespace SmlRs.Macros

open Lib

variable {E : Environment}

/-!
A hook is generated once for all contexts.  It honours the rows it is made from if
it does what they say in every context, whatever the callbacks and the queues do.
-/

/-- What a lifecycle row may call upon. -/
structure Surroundings (E : Environment) (World : Type) where
  guard : E.Ident → List E.Data → World → Except E.Data Bool
  action : E.Ident → List E.Data → World → Except E.Data E.Data × World
  process_event : Event E → World → Except (Fault E) Unit × World
  defer : World → Except (Fault E) Unit × World

namespace Surroundings

variable {World : Type} (surroundings : Surroundings E World) (args : List E.Data)

/-- One call of an action, with the `?` behind it. -/
def call (action : E.Ident) : EStateM (Fault E) World Unit := fun world =>
  match surroundings.action action args world with
  | (.ok _, world) => .ok () world
  | (.error error, world) => .error (.action_failed error) world

/-- The value of a guard, with the `?` behind it. -/
def passes (guard : Guard E.Ident) : EStateM (Fault E) World Bool := fun world =>
  match guard.expression.eval fun name => surroundings.guard name args world with
  | .ok passed => .ok passed world
  | .error error => .error (.guard_failed error) world

def requests (request : World → Except (Fault E) Unit × World) :
    EStateM (Fault E) World Unit := fun world =>
  match request world with
  | (.ok _, world) => .ok () world
  | (.error fault, world) => .error fault world

/-- One item of an action list. -/
def item : Item E → EStateM (Fault E) World Unit
  | .call action => surroundings.call args action
  | .eval guard action => do
      let passed ← surroundings.passes args guard
      if passed then surroundings.call args action else pure ()

/-- `defer`, where the row has it. -/
def put_off (row : StateTransition E) : EStateM (Fault E) World Unit :=
  if row.defer then requests surroundings.defer else pure ()

/-- The action list of a row: its items, and the events it defers and processes. -/
def body (row : StateTransition E) : EStateM (Fault E) World Unit := do
  row.items.forM (surroundings.item args)
  surroundings.put_off row
  row.process_events.forM fun event => requests (surroundings.process_event event)

/-- A row runs its action list if its guard is true. -/
def row (row : StateTransition E) : EStateM (Fault E) World Unit :=
  match row.guard with
  | none => surroundings.body args row
  | some guard => do
      let passed ← surroundings.passes args guard
      if passed then surroundings.body args row else pure ()

/-- Lifecycle rows as they are declared: all of them, in table order. -/
def declared (rows : List (StateTransition E)) : EStateM (Fault E) World Unit :=
  rows.forM (surroundings.row args)

/-- A generated hook. -/
def lowered (actions : List E.Ident) : EStateM (Fault E) World Unit :=
  actions.forM (surroundings.call args)

end Surroundings

/-- The hook with these actions does what the rows declare. -/
def Honours (actions : List E.Ident) (rows : List (StateTransition E)) : Prop :=
  ∀ (World : Type) (surroundings : Surroundings E World) (args : List E.Data),
    surroundings.lowered args actions = surroundings.declared args rows

/-- A row runs its actions, and does nothing else. -/
structure StateTransition.Bare (row : StateTransition E) : Prop where
  unguarded : row.guard = none
  calls : row.items = row.actions.map .call
  kept : row.defer = false
  quiet : row.process_events = []

/-! ### Hooks of plain actions -/

section Plain

variable {World : Type} (surroundings : Surroundings E World) (args : List E.Data)

theorem items_called (actions : List E.Ident) :
    (actions.map Item.call).forM (surroundings.item args) =
      surroundings.lowered args actions := by
  induction actions with
  | nil => rfl
  | cons action rest ih =>
    exact congrArg (fun tail => surroundings.call args action >>= fun _ => tail) ih

theorem row_bare {row : StateTransition E} (bare : row.Bare) :
    surroundings.row args row = surroundings.lowered args row.actions := by
  have body : surroundings.body args row = surroundings.lowered args row.actions := by
    unfold Surroundings.body Surroundings.put_off
    rw [bare.calls, bare.kept, bare.quiet, items_called]
    exact bind_pure _
  unfold Surroundings.row
  rw [bare.unguarded]
  exact body

/-- Bare rows are the hook of all their actions. -/
theorem declared_bare {rows : List (StateTransition E)}
    (bare : ∀ row ∈ rows, row.Bare) :
    surroundings.declared args rows =
      surroundings.lowered args (rows.flatMap (·.actions)) := by
  unfold Surroundings.declared Surroundings.lowered
  rw [forM_flatMap]
  apply Couples.eq
  apply Couples.forM
  intro row among
  exact Couples.of_eq (row_bare surroundings args (bare row among))

end Plain

/-! ### Telling rows apart -/

/-- Surroundings in which only actions succeed. -/
def strict (E : Environment) : Surroundings E Unit where
  guard _ _ _ := .error E.default
  action _ _ world := (.ok E.default, world)
  process_event _ world := (.error .diverged, world)
  defer world := (.error .diverged, world)

/-- Surroundings that write down the actions they are asked for. -/
def listening (E : Environment) : Surroundings E (List E.Ident) where
  guard _ _ _ := .ok true
  action name _ log := (.ok E.default, log ++ [name])
  process_event _ log := (.ok (), log)
  defer log := (.ok (), log)

theorem lowered_listening (args : List E.Data) (actions log : List E.Ident) :
    (listening E).lowered args actions log = .ok () (log ++ actions) := by
  induction actions generalizing log with
  | nil => rw [List.append_nil]; rfl
  | cons action rest ih =>
    have step : (listening E).call args action log = .ok () (log ++ [action]) := rfl
    show ((listening E).call args action >>= fun _ =>
      (listening E).lowered args rest) log = _
    rw [bind_run, step]
    dsimp only
    rw [ih, List.append_assoc]
    rfl

theorem lowered_strict (args : List E.Data) (actions : List E.Ident) :
    (strict E).lowered args actions () = .ok () () := by
  induction actions with
  | nil => rfl
  | cons action rest ih => exact ih

/-- A guard calls a callback. -/
theorem eval_fails {G ε : Type} (error : ε) (guard : GuardExpression G) :
    guard.eval (fun _ => (.error error : Except ε Bool)) = .error error := by
  induction guard with
  | guard name => rfl
  | not inner ih =>
    unfold GuardExpression.eval
    rw [ih]
    rfl
  | group inner ih => exact ih
  | and left right ih _ =>
    unfold GuardExpression.eval
    rw [ih]
    rfl
  | or left right ih _ =>
    unfold GuardExpression.eval
    rw [ih]
    rfl

theorem passes_strict (args : List E.Data) (guard : Guard E.Ident) :
    (strict E).passes args guard () = .error (.guard_failed E.default) () := by
  have fails : guard.expression.eval
      (fun name => (strict E).guard name args ()) = .error E.default :=
    eval_fails E.default guard.expression
  unfold Surroundings.passes
  rw [fails]

/-- Without an item that is evaluated, a row has its actions as items. -/
theorem action_sequence_calls {evals : List (EvalAction E)} {positions : Nat}
    {position : Nat} {actions : List E.Ident} (enough : actions.length ≤ positions)
    (calls : ∀ guard action,
      .eval guard action ∉ action_sequence evals positions position actions) :
    action_sequence evals positions position actions = actions.map .call := by
  induction positions generalizing position actions with
  | zero =>
    rw [List.length_eq_zero_iff.mp (Nat.le_zero.mp enough)]
    rfl
  | succ positions ih =>
    unfold action_sequence at calls ⊢
    cases evaluated : evals.find? (·.position = position) with
    | some eval =>
      rw [evaluated] at calls
      exact absurd (List.mem_cons_self ..) (calls eval.guard eval.action)
    | none =>
      rw [evaluated] at calls
      cases actions with
      | nil => rfl
      | cons action rest =>
        have further := ih (Nat.le_of_succ_le_succ enough) fun guard action among =>
          calls guard action (List.mem_cons_of_mem _ among)
        dsimp only
        rw [further]
        rfl

theorem items_strict {args : List E.Data} {items : List (Item E)}
    (returns : items.forM ((strict E).item args) () = .ok () ()) (guard : Guard E.Ident)
    (action : E.Ident) : .eval guard action ∉ items := by
  induction items with
  | nil => exact List.not_mem_nil
  | cons item rest ih =>
    obtain ⟨_, _, first, further⟩ := bind_ok_iff.mp returns
    intro among
    rcases List.mem_cons.mp among with rfl | later
    · have fails := passes_strict args guard
      obtain ⟨_, _, passed, _⟩ := bind_ok_iff.mp first
      rw [fails] at passed
      cases passed
    · exact ih further later

/-- A row that succeeds there is bare. -/
theorem bare_of_strict {args : List E.Data} {row : StateTransition E}
    (returns : (strict E).row args row () = .ok () ()) : row.Bare := by
  unfold Surroundings.row at returns
  cases unguarded : row.guard with
  | some guard =>
    rw [unguarded] at returns
    obtain ⟨_, _, passed, _⟩ := bind_ok_iff.mp returns
    rw [passes_strict] at passed
    cases passed
  | none =>
    rw [unguarded] at returns
    obtain ⟨_, _, ran, further⟩ := bind_ok_iff.mp returns
    obtain ⟨_, _, kept, processed⟩ := bind_ok_iff.mp further
    refine ⟨unguarded, ?_, ?_, ?_⟩
    · apply action_sequence_calls (Nat.le_add_right _ _)
      exact items_strict ran
    · cases deferred : row.defer with
      | false => rfl
      | true =>
        unfold Surroundings.put_off at kept
        rw [deferred] at kept
        cases kept
    · cases events : row.process_events with
      | nil => rfl
      | cons event rest =>
        rw [events] at processed
        obtain ⟨_, _, requested, _⟩ := bind_ok_iff.mp processed
        cases requested

theorem declared_strict {args : List E.Data} {rows : List (StateTransition E)}
    (returns : (strict E).declared args rows () = .ok () ()) :
    ∀ row ∈ rows, row.Bare := by
  induction rows with
  | nil => exact fun _ among => absurd among List.not_mem_nil
  | cons row rest ih =>
    obtain ⟨_, _, first, further⟩ := bind_ok_iff.mp returns
    intro other among
    rcases List.mem_cons.mp among with rfl | later
    · exact bare_of_strict first
    · exact ih further other later

/-- A hook honours rows exactly when they have nothing but actions and these are the
actions of the hook. -/
theorem honours_iff {actions : List E.Ident} {rows : List (StateTransition E)} :
    Honours actions rows ↔
      (∀ row ∈ rows, row.Bare) ∧ rows.flatMap (·.actions) = actions := by
  constructor
  · intro honours
    have bare : ∀ row ∈ rows, row.Bare := by
      apply declared_strict
      rw [← honours Unit (strict E) []]
      exact lowered_strict [] actions
    refine ⟨bare, ?_⟩
    have heard := honours (List E.Ident) (listening E) []
    rw [declared_bare _ _ bare] at heard
    have logs := congrFun heard []
    rw [lowered_listening, lowered_listening] at logs
    injection logs with _ same
    exact same.symm
  · rintro ⟨bare, same⟩ World surroundings args
    rw [declared_bare surroundings args bare, same]

/-! ### The rows of a state in a tree -/

section Written

variable {blank : E.Ident} {table : Table E} {composite : E.Ident → Bool}
  {state : E.Ident}

/-- A row of a state, or one from `_` as it is written out for it. -/
def placed_row (table : Table E) (composite : E.Ident → Bool) (state : E.Ident)
    (item : StateTransition E × Bool) : StateTransition E :=
  if item.2 then item.1.written_at (table.source composite state) else item.1

theorem write_filter (front : List (StateTransition E))
    (row : StateTransition E) :
    (table.write blank composite front row).filter (·.in_state.ident = state) =
      if row.in_state.ident = blank then
        if table.opens blank front row state then
          [row.written_at (table.source composite state)] else []
      else if row.in_state.ident = state then [row] else [] := by
  unfold Table.write
  by_cases wild : row.in_state.ident = blank
  · rw [if_pos wild, if_pos wild, List.filter_map]
    have distinct : ((table.states blank).filter
        (table.opens blank front row)).Nodup :=
      (List.nodup_dedup _).filter _
    have listed : state ∈ (table.states blank).filter (table.opens blank front row) ↔
        table.opens blank front row state = true := by
      rw [List.mem_filter]
      constructor
      · exact fun both => both.2
      · intro opens
        refine ⟨?_, opens⟩
        simp only [Table.opens, Bool.and_eq_true] at opens
        exact List.contains_iff_mem.mp opens.1
    have alone : ((table.states blank).filter (table.opens blank front row)).filter
        (fun other => decide (other = state)) =
        if table.opens blank front row state then [state] else [] := by
      rw [List.filter_eq, distinct.count]
      by_cases opens : table.opens blank front row state = true
      · rw [if_pos (listed.mpr opens), if_pos opens]
        rfl
      · rw [if_neg (fun among => opens (listed.mp among)), if_neg opens]
        rfl
    show (((table.states blank).filter (table.opens blank front row)).filter
      (fun other => decide (other = state))).map _ = _
    rw [alone]
    split
    · rfl
    · rfl
  · rw [if_neg wild, if_neg wild]
    by_cases here : row.in_state.ident = state
    · simp [here]
    · simp [here]

/-- The rows of a state in a written-out table: its own ones, with those from `_`
among them. -/
theorem write_rows_merged (named : state ≠ blank) :
    ∀ rows front, ∃ items : List (StateTransition E × Bool),
      (table.write_rows blank composite front rows).filter
          (·.in_state.ident = state) =
        items.map (placed_row table composite state) ∧
      rows.filter (·.in_state.ident = state) = marked_items items false ∧
      table.added_rows blank state front rows = marked_items items true := by
  intro rows
  induction rows with
  | nil => exact fun _ => ⟨[], rfl, rfl, rfl⟩
  | cons row rest ih =>
    intro front
    obtain ⟨items, written, own, added⟩ := ih (front ++ [row])
    unfold Table.write_rows Table.added_rows
    rw [List.filter_append, write_filter, written, added, List.filter_cons, own]
    by_cases wild : row.in_state.ident = blank
    · have away : ¬ row.in_state.ident = state :=
        fun here => named (here.symm.trans wild)
      by_cases opens : table.opens blank front row state = true
      · refine ⟨(row, true) :: items, ?_, ?_, ?_⟩
        · simp [wild, opens, placed_row]
        · simp [away, marked_items]
        · simp [wild, opens, marked_items]
      · refine ⟨items, ?_, ?_, ?_⟩
        · simp [wild, opens]
        · simp [away]
        · simp [opens]
    · by_cases here : row.in_state.ident = state
      · refine ⟨(row, false) :: items, ?_, ?_, ?_⟩
        · simp [named, here, placed_row]
        · simp [here, marked_items]
        · simp [wild, marked_items]
      · refine ⟨items, ?_, ?_, ?_⟩
        · simp [wild, here]
        · simp [here]
        · simp [wild]

end Written

/-! ### The hooks of a machine -/

/-- What `validate_unreachable_transitions` refuses: a guarded row behind one
without a guard, and a second one without a guard. -/
inductive Unreachable (E : Environment) where
  | guarded (in_state : E.Ident) (event : EventKind × Option (Option E.Ident))
      (guard : Guard E.Ident)
  | duplicate (in_state : E.Ident) (event : EventKind × Option (Option E.Ident))

namespace Table

variable (table : Table E) (in_state : E.Ident)
  (event : EventKind × Option (Option E.Ident))

/-- The loop over the rows of one mapping, with the number of those without a guard
so far. -/
def count_unguarded : Nat → List (StateTransition E) → Except (Unreachable E) Unit
  | _, [] => .ok ()
  | unguarded_count, row :: rest =>
      match row.guard with
      | some guard =>
          if 0 < unguarded_count then .error (.guarded in_state event guard)
          else count_unguarded unguarded_count rest
      | none =>
          if 1 < unguarded_count + 1 then .error (.duplicate in_state event)
          else count_unguarded (unguarded_count + 1) rest

/-- `validate_unreachable_transitions`, of one state and event. -/
def validate_mapping : Except (Unreachable E) Unit :=
  let rows := (table.rows in_state).filter (·.event_key = event)
  if 1 < rows.length then count_unguarded in_state event 0 rows else .ok ()

end Table

namespace Machine

variable (blank : E.Ident) (machine : Machine E)

/-- The lifecycle rows that a table declares for a state. A flat table has no rows
from `_` left when its code is generated. -/
def lifecycle_rows (kind : EventKind) (node : Nat) (state : E.Ident) :
    List (StateTransition E) :=
  match machine with
  | .flat code => (code.table.rows state).filter (·.event.kind = kind)
  | .tree code =>
      (((code.written_out blank).node node).rows state).filter (·.event.kind = kind)

/-- The actions of the hook that is generated for a state. -/
def lifecycle_hook (kind : EventKind) (node : Nat) (state : E.Ident) :
    List E.Ident :=
  match machine with
  | .flat code => code.lifecycle kind state
  | .tree code => (code.node node).hooks kind state

/-- The validation of the rows of a table. Only flat tables have one. -/
def Validated : Prop :=
  match machine with
  | .flat code => ∀ in_state event, code.table.validate_mapping in_state event = .ok ()
  | .tree _ => True

/-- Where the table is accepted, the hooks of all states honour its rows. -/
def Honoured : Prop :=
  machine.Validated → ∀ kind node state, kind = .entry ∨ kind = .exit →
    node < machine.tables.size → state ≠ blank →
      Honours (machine.lifecycle_hook kind node state)
        (machine.lifecycle_rows blank kind node state)

/-- A hook has all there is to its rows: they have nothing but actions, and those of
one of them. -/
def Told (kind : EventKind) (node : Nat) (state : E.Ident) : Prop :=
  match machine with
  | .flat code =>
      let rows := (code.table.rows state).filter (·.event.kind = kind)
      rows.length ≤ 1 ∧ ∀ row ∈ rows, row.Bare
  | .tree code =>
      let rows := ((code.node node).rows state).filter (·.event.kind = kind)
      (∀ row ∈ rows, row.Bare) ∧ (∀ row ∈ rows.dropLast, row.actions = []) ∧
        ∀ row ∈ (code.node node).added blank state, row.event.kind = kind →
          row.Bare ∧ row.actions = []

end Machine

/-! ### What is told of the rows -/

section Told

variable {kind : EventKind} {state : E.Ident}

/-- Lifecycle rows of a kind share their mapping. -/
theorem event_key_lifecycle (lifecycle : kind = .entry ∨ kind = .exit)
    (row : StateTransition E) :
    row.event_key = (kind, none) ↔ row.event.kind = kind := by
  unfold StateTransition.event_key
  rcases lifecycle with rfl | rfl
  · cases row.event.kind <;> simp
  · cases row.event.kind <;> simp

/-- Two rows without guards are refused. -/
theorem count_unguarded_pair {event : EventKind × Option (Option E.Ident)}
    {first second : StateTransition E} {rest : List (StateTransition E)}
    (unguarded : first.guard = none) (unguarded' : second.guard = none) :
    Table.count_unguarded state event 0 (first :: second :: rest) =
      .error (.duplicate state event) := by
  unfold Table.count_unguarded
  rw [unguarded]
  dsimp only
  rw [if_neg (Nat.lt_irrefl 1)]
  unfold Table.count_unguarded
  rw [unguarded']
  rfl

variable {flat : Flat E}

theorem flat_honours_iff (validated : (Machine.flat flat).Validated)
    (lifecycle : kind = .entry ∨ kind = .exit) :
    Honours (flat.lifecycle kind state)
        ((flat.table.rows state).filter (·.event.kind = kind)) ↔
      ((flat.table.rows state).filter (·.event.kind = kind)).length ≤ 1 ∧
        ∀ row ∈ (flat.table.rows state).filter (·.event.kind = kind), row.Bare := by
  have mapping : (flat.table.rows state).filter (·.event_key = (kind, none)) =
      (flat.table.rows state).filter (·.event.kind = kind) := by
    apply List.filter_congr
    intro row _
    exact decide_eq_decide.mpr (event_key_lifecycle lifecycle row)
  have hook : flat.lifecycle kind state =
      (((flat.table.rows state).filter (·.event.kind = kind)).head?.map
        (·.actions)).getD [] := by
    rw [List.head?_filter]
    rfl
  have accepted := validated state (kind, none)
  unfold Table.validate_mapping at accepted
  dsimp only at accepted
  rw [mapping] at accepted
  rw [honours_iff, hook]
  generalize (flat.table.rows state).filter (·.event.kind = kind) = rows at accepted ⊢
  constructor
  · rintro ⟨bare, _⟩
    refine ⟨?_, bare⟩
    by_contra several
    rw [Nat.not_le] at several
    rw [if_pos several] at accepted
    obtain ⟨first, rest, rfl⟩ := List.exists_cons_of_length_pos (by omega : 0 < rows.length)
    obtain ⟨second, rest, rfl⟩ := List.exists_cons_of_length_pos
      (by simpa using several : 0 < rest.length)
    rw [count_unguarded_pair (bare first (by simp)).unguarded
      (bare second (by simp)).unguarded] at accepted
    cases accepted
  · rintro ⟨few, bare⟩
    refine ⟨bare, ?_⟩
    rcases rows with _ | ⟨first, _ | ⟨second, rest⟩⟩
    · rfl
    · simp
    · simp at few

variable {tree : Tree E} {blank : E.Ident} {node : Nat}

theorem written_bare {row : StateTransition E} (source : State E) :
    (row.written_at source).Bare ↔ row.Bare :=
  ⟨fun bare => ⟨bare.unguarded, bare.calls, bare.kept, bare.quiet⟩,
    fun bare => ⟨bare.unguarded, bare.calls, bare.kept, bare.quiet⟩⟩

theorem tree_honours_iff (named : state ≠ blank) :
    Honours ((tree.node node).hooks kind state)
        ((((tree.written_out blank).node node).rows state).filter
          (·.event.kind = kind)) ↔
      (Machine.tree tree).Told blank kind node state := by
  obtain ⟨items, written, own, added⟩ :=
    @write_rows_merged E blank (tree.node node).toTable
      (fun state => (tree.child node state).isSome) state named
      (tree.node node).transitions []
  have rows : (((tree.written_out blank).node node).rows state).filter
      (·.event.kind = kind) =
      (items.filter (·.1.event.kind = kind)).map (placed_row (tree.node node).toTable
        (fun state => (tree.child node state).isSome) state) := by
    have listed : ((tree.written_out blank).node node).rows state = _ := written
    rw [listed, List.filter_map]
    congr 1
    apply List.filter_congr
    rintro ⟨row, mark⟩ _
    cases mark <;> rfl
  have plain : ((tree.node node).rows state).filter (·.event.kind = kind) =
      marked_items (items.filter (·.1.event.kind = kind)) false := by
    have listed : (tree.node node).rows state = _ := own
    rw [listed, marked_filter]
  have wild (row : StateTransition E) :
      row ∈ marked_items (items.filter (·.1.event.kind = kind)) true ↔
        row ∈ (tree.node node).added blank state ∧ row.event.kind = kind := by
    have listed : (tree.node node).added blank state = _ := added
    rw [listed, ← marked_filter items true fun row => decide (row.event.kind = kind),
      List.mem_filter, decide_eq_true_eq]
  have hook : (tree.node node).hooks kind state =
      ((marked_items (items.filter (·.1.event.kind = kind)) false).getLast?.map
        (·.actions)).getD [] := by
    rw [← plain]
    rfl
  unfold Machine.Told
  dsimp only
  rw [honours_iff, rows, hook, plain]
  generalize items.filter (·.1.event.kind = kind) = kept at wild ⊢
  have actions : (kept.map (placed_row (tree.node node).toTable
      (fun state => (tree.child node state).isSome) state)).flatMap (·.actions) =
      kept.flatMap fun item => item.1.actions := by
    rw [List.flatMap_map]
    congr 1
    funext item
    obtain ⟨row, mark⟩ := item
    cases mark <;> rfl
  have bare : (∀ row ∈ kept.map (placed_row (tree.node node).toTable
      (fun state => (tree.child node state).isSome) state), row.Bare) ↔
      ∀ item ∈ kept, item.1.Bare := by
    rw [List.forall_mem_map]
    apply forall₂_congr
    rintro ⟨row, mark⟩ _
    cases mark with
    | true => exact written_bare _
    | false => exact Iff.rfl
  rw [bare, actions, flatMap_last_unmarked, forall_marked]
  simp only [wild]
  constructor
  · rintro ⟨⟨own_bare, wild_bare⟩, front, empty⟩
    exact ⟨own_bare, front, fun row among here =>
      ⟨wild_bare row ⟨among, here⟩, empty row ⟨among, here⟩⟩⟩
  · rintro ⟨own_bare, front, idle⟩
    exact ⟨⟨own_bare, fun row among => (idle row among.1 among.2).1⟩, front,
      fun row among => (idle row among.1 among.2).2⟩

end Told

/-! ### Hooks in a run -/

/-- A request that a machine grants by some code. -/
def answered (code : Effect E Unit) (core : Core E) :
    Except (Fault E) Unit × Core E :=
  match code core with
  | .ok _ core => (.ok (), core)
  | .error fault core => (.error fault, core)

/-- The surroundings of a row in a machine. -/
def in_core (process_event : Event E → Effect E Unit) (defer : Effect E Unit) :
    Surroundings E (Core E) where
  guard name args core := E.guard name args core.view.world
  action name args core :=
    let (result, world) := E.action name args core.view.world
    (result, core.set { core.view with world := world })
  process_event event := answered (process_event event)
  defer := answered defer

/-- The code of a hook is the hook in the surroundings of the machine. -/
theorem action_calls_lowered (process_event : Event E → Effect E Unit)
    (defer : Effect E Unit) (actions : List E.Ident) (args : List E.Data) :
    action_calls actions args =
      (in_core process_event defer).lowered args actions := by
  apply Couples.eq
  apply Couples.forM
  intro action _
  apply Couples.of_eq
  funext core
  have run : (do let _ ← call_action action args : Effect E Unit) core =
      (lift .action_failed (E.action action args core.view.world).1 >>= fun _ =>
        pure ()) (core.set
          { core.view with world := (E.action action args core.view.world).2 }) := rfl
  rw [run]
  unfold Surroundings.call in_core
  dsimp only
  cases (E.action action args core.view.world).1 with
  | ok value => rfl
  | error error => rfl

/-- Lifecycle rows are honoured exactly where the table is refused or the hook of
each state has all there is to its rows; and what a machine runs when a state is
entered or left is that hook. -/
theorem lifecycle_honoured_iff (blank : E.Ident) (machine : Machine E) :
    (machine.Honoured blank ↔
      (machine.Validated → ∀ kind node state, kind = .entry ∨ kind = .exit →
        node < machine.tables.size → state ≠ blank →
          machine.Told blank kind node state)) ∧
      ∀ process_event defer actions args, action_calls actions args =
        (in_core process_event defer : Surroundings E (Core E)).lowered args
          actions := by
  refine ⟨?_, action_calls_lowered⟩
  unfold Machine.Honoured
  apply forall_congr'
  intro validated
  apply forall_congr'
  intro kind
  apply forall_congr'
  intro node
  apply forall_congr'
  intro state
  apply forall_congr'
  intro lifecycle
  apply forall_congr'
  intro inside
  apply forall_congr'
  intro named
  cases machine with
  | flat code => exact flat_honours_iff validated lifecycle
  | tree code => exact tree_honours_iff named

/-! ### Rows that are left out -/

/-- An entry row of a state. -/
def entering (state : Nat) (guard : Option (Guard Name)) : StateTransition sample where
  in_state := plain state
  event := { kind := .entry, ident := Name.X }
  guard := guard
  actions := [Name.acts]
  out_state := plain state
  internal_transition := true

/-- The guard of the only row is dropped. -/
def guarded_entry : Flat sample where
  table := scalar 0 [] [entering 0 (some (call false))]

theorem guarded_entry_validated : (Machine.flat guarded_entry).Validated := by
  intro in_state event
  have short : ((guarded_entry.table.rows in_state).filter
      (·.event_key = event)).length ≤ 1 :=
    (List.length_filter_le _ _).trans (List.length_filter_le _ _)
  exact if_neg (Nat.not_lt.mpr short)

/-- Two regions. The first of the two entry rows is dropped. -/
def two_entries : Tree sample where
  size := 1
  node _ :=
    { owner := 0, variant := Name.X, depth := 0
      transitions := [entering 0 none, entering 0 none]
      regions := [⟨Name.state 0, [Name.state 0]⟩, ⟨Name.state 1, [Name.state 1]⟩] }
  size_pos := Nat.one_pos
  root_depth := by decide
  owner_lt := by decide
  depth_owner := by decide
  regions_pos := by decide
  variants := by decide
  in_composite := by decide
  out_composite := by decide

/-- Both tables are accepted, and their entry rows are not honoured. -/
theorem entries_dropped :
    ¬ @Machine.Honoured sample Name.acts (.flat guarded_entry) ∧
      ¬ @Machine.Honoured sample Name.acts (.tree two_entries) := by
  constructor
  · intro honoured
    have hook := honoured guarded_entry_validated .entry 0 (Name.state 0) (.inl rfl)
      Nat.one_pos Name.noConfusion
    have bare := (honours_iff.mp hook).1 (entering 0 (some (call false)))
      (List.mem_singleton.mpr rfl)
    cases bare.unguarded
  · intro honoured
    have hook := honoured trivial .entry 0 (Name.state 0) (.inl rfl) Nat.one_pos
      Name.noConfusion
    have told := (tree_honours_iff Name.noConfusion).mp hook
    have empty := told.2.1 (entering 0 none) (List.mem_singleton.mpr rfl)
    cases empty

end SmlRs.Macros
