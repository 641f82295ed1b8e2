/-
Module: SmlRs.Macros.Wildcards
Purpose: Rows from `_`, and the tables in which they are written out.
Trusted boundary: none
Main exports: Table.written_out, Table.added, Tree.written_out, Tables.Native
-/
import Mathlib.Data.List.Dedup
import SmlRs.Macros.Reach

namespace SmlRs.Macros

open Lib

variable {E : Environment}

/-!
A row from `_` has a source of that name.  The generators of regions and of nested
tables look for the rows of a state by its name, and `_` is the name of no state.
-/

/-! ### Writing rows out -/

namespace StateTransition

variable (row : StateTransition E)

/-- `event_key`. -/
def event_key : EventKind × Option (Option E.Ident) :=
  match row.event.kind with
  | .entry => (.entry, none)
  | .exit => (.exit, none)
  | .normal => (.normal, some (some row.event.ident))
  | kind => (kind, some (if row.event.wildcard then none
      else some row.event.ident))

/-- The row as it is written out for a state. -/
def written_at (state : State E) : StateTransition E :=
  { row with
    in_state := state
    out_state := if row.internal_transition then state else row.out_state }

end StateTransition

namespace Table

variable (blank : E.Ident) (table : Table E)

/-- The states of a table. -/
def states : List E.Ident :=
  (table.transitions.flatMap fun row =>
    (if row.in_state.ident = blank then [] else [row.in_state.ident]) ++
      if row.internal_transition then [] else [row.out_state.ident]).dedup

/-- Whether a row from `_` is written out for a state: it is one of the table, and
none of the rows in front is for the same trigger in this state. -/
def opens (front : List (StateTransition E)) (row : StateTransition E)
    (state : E.Ident) : Bool :=
  (table.states blank).contains state && !front.any fun earlier =>
    (earlier.in_state.ident = state || earlier.in_state.ident = blank) &&
      earlier.event_key = row.event_key

/-- The source of a row that is written out for a state. -/
def source (composite : E.Ident → Bool) (state : E.Ident) : State E where
  ident := state
  data_type := table.has_data state
  composite := composite state

/-- What becomes of a row behind others. -/
def write (composite : E.Ident → Bool) (front : List (StateTransition E))
    (row : StateTransition E) : List (StateTransition E) :=
  if row.in_state.ident = blank then
    ((table.states blank).filter (table.opens blank front row)).map fun state =>
      row.written_at (table.source composite state)
  else [row]

/-- What becomes of some rows behind others. -/
def write_rows (composite : E.Ident → Bool) :
    List (StateTransition E) → List (StateTransition E) →
      List (StateTransition E)
  | _, [] => []
  | front, row :: rest =>
      table.write blank composite front row ++
        write_rows composite (front ++ [row]) rest

/-- The table with its rows from `_` written out. Its regions are the same: where
a written-out row led into another region, `discover_regions` would refuse it. -/
def written_out (composite : E.Ident → Bool) : Table E :=
  { table with
    transitions := table.write_rows blank composite [] table.transitions }

/-- The rows from `_` that are written out for a state, among some rows behind
others. -/
def added_rows (state : E.Ident) :
    List (StateTransition E) → List (StateTransition E) →
      List (StateTransition E)
  | _, [] => []
  | front, row :: rest =>
      (if row.in_state.ident = blank && table.opens blank front row state
        then [row] else []) ++
        added_rows state (front ++ [row]) rest

/-- The rows from `_` that are written out for a state. -/
def added (state : E.Ident) : List (StateTransition E) :=
  table.added_rows blank state [] table.transitions

/-! ### The rows of a state -/

variable {blank table} {composite : E.Ident → Bool} {state : E.Ident}
  {shared : StateTransition E → Bool}

theorem mem_write {front : List (StateTransition E)}
    {row written : StateTransition E} :
    written ∈ table.write blank composite front row ↔
      (row.in_state.ident = blank ∧ ∃ state,
        table.opens blank front row state = true ∧
          written = row.written_at (table.source composite state)) ∨
      row.in_state.ident ≠ blank ∧ written = row := by
  unfold write
  split
  · rename_i wild
    simp only [List.mem_map, List.mem_filter, wild, true_and, ne_eq,
      not_true_eq_false, false_and, or_false]
    constructor
    · rintro ⟨state, ⟨_, opens⟩, rfl⟩
      exact ⟨state, opens, rfl⟩
    · rintro ⟨state, opens, rfl⟩
      refine ⟨state, ⟨?_, opens⟩, rfl⟩
      simp only [Table.opens, Bool.and_eq_true] at opens
      exact List.contains_iff_mem.mp opens.1
  · rename_i own
    simp [own]

theorem write_rows_filter (named : state ≠ blank)
    (kept : ∀ row source, shared (row.written_at source) = shared row) :
    ∀ rows front,
      (∀ row ∈ table.added_rows blank state front rows, shared row = false) →
      ((table.write_rows blank composite front rows).filter
          fun row => row.in_state.ident = state).filter shared =
        (rows.filter fun row => row.in_state.ident = state).filter shared := by
  intro rows
  induction rows with
  | nil => exact fun _ _ => rfl
  | cons row rest ih =>
    intro front clear
    have further := ih (front ++ [row]) fun other among =>
      clear other (List.mem_append_right _ among)
    unfold write_rows
    rw [List.filter_append, List.filter_append, further]
    by_cases wild : row.in_state.ident = blank
    · have away : ¬ row.in_state.ident = state :=
        fun same => named (same.symm.trans wild)
      have nothing : ((table.write blank composite front row).filter
          fun row => row.in_state.ident = state).filter shared = [] := by
        rw [List.filter_filter, List.filter_eq_nil_iff]
        intro written among
        rcases mem_write.mp among with ⟨_, other, opens, rfl⟩ | ⟨own, _⟩
        · simp only [Bool.and_eq_true, decide_eq_true_eq, kept, not_and]
          intro here same
          have same : other = state := same
          subst same
          have silent := clear row (by simp [added_rows, wild, opens])
          rw [here] at silent
          cases silent
        · exact absurd wild own
      rw [nothing, List.nil_append]
      simp [away]
    · have own : table.write blank composite front row = [row] :=
        if_neg wild
      rw [own, ← List.filter_append, ← List.filter_append,
        List.singleton_append]

/-- Where no row of a kind is written out for a state, the state keeps its rows of
that kind. -/
theorem written_out_rows_filter (named : state ≠ blank)
    (kept : ∀ row source, shared (row.written_at source) = shared row)
    (clear : ∀ row ∈ table.added blank state, shared row = false) :
    ((table.written_out blank composite).rows state).filter shared =
      (table.rows state).filter shared :=
  write_rows_filter named kept table.transitions [] clear

/-! ### What is read off all rows -/

variable (blank table) in
/-- Each row from `_` has a bare source, and is written out for some state. -/
structure Wild : Prop where
  bare : ∀ row ∈ table.transitions, row.in_state.ident = blank →
    row.in_state = { ident := blank } ∧
      (row.internal_transition = true → row.out_state = { ident := blank })
  written : ∀ row ∈ table.transitions, row.in_state.ident = blank →
    ∃ state, row ∈ table.added blank state

theorem mem_added_rows {row : StateTransition E} :
    ∀ rows front, row ∈ table.added_rows blank state front rows ↔
      ∃ before after, rows = before ++ row :: after ∧
        row.in_state.ident = blank ∧
        table.opens blank (front ++ before) row state = true := by
  intro rows
  induction rows with
  | nil => simp [added_rows]
  | cons first rest ih =>
    intro front
    unfold added_rows
    rw [List.mem_append, ih]
    constructor
    · rintro (here | ⟨before, after, rfl, wild, opens⟩)
      · split at here
        · rename_i both
          rw [List.mem_singleton.mp here]
          simp only [Bool.and_eq_true, decide_eq_true_eq] at both
          exact ⟨[], rest, rfl, both.1, by simpa using both.2⟩
        · cases here
      · exact ⟨first :: before, after, rfl, wild, by simpa using opens⟩
    · rintro ⟨before, after, split, wild, opens⟩
      cases before with
      | nil =>
        cases split
        left
        simp only [List.append_nil] at opens
        simp [wild, opens]
      | cons other before =>
        cases split
        exact .inr ⟨before, after, rfl, wild, by simpa using opens⟩

theorem mem_write_rows {written : StateTransition E} :
    ∀ rows front, written ∈ table.write_rows blank composite front rows ↔
      ∃ before row after, rows = before ++ row :: after ∧
        written ∈ table.write blank composite (front ++ before) row := by
  intro rows
  induction rows with
  | nil => simp [write_rows]
  | cons first rest ih =>
    intro front
    unfold write_rows
    rw [List.mem_append, ih]
    constructor
    · rintro (here | ⟨before, row, after, rfl, among⟩)
      · exact ⟨[], first, rest, rfl, by simpa using here⟩
      · exact ⟨first :: before, row, after, rfl, by simpa using among⟩
    · rintro ⟨before, row, after, split, among⟩
      cases before with
      | nil =>
        cases split
        exact .inl (by simpa using among)
      | cons other before =>
        cases split
        exact .inr ⟨before, row, after, rfl, by simpa using among⟩

/-- The written-out rows: those of the states, and a copy of each row from `_` for
each state it is written out for. -/
theorem mem_written_out {written : StateTransition E} :
    written ∈ (table.written_out blank composite).transitions ↔
      (written ∈ table.transitions ∧ written.in_state.ident ≠ blank) ∨
      ∃ row state, row ∈ table.added blank state ∧
        written = row.written_at (table.source composite state) := by
  unfold written_out added
  rw [mem_write_rows]
  simp only [mem_added_rows, mem_write, List.nil_append]
  constructor
  · rintro ⟨before, row, after, split, ⟨wild, state, opens, rfl⟩ | ⟨own, rfl⟩⟩
    · exact .inr ⟨row, state, ⟨before, after, split, wild, opens⟩, rfl⟩
    · exact .inl ⟨by simp [split], own⟩
  · rintro (⟨among, own⟩ | ⟨row, state, ⟨before, after, split, wild, opens⟩, rfl⟩)
    · obtain ⟨before, after, split⟩ := List.append_of_mem among
      exact ⟨before, written, after, split, .inr ⟨own, rfl⟩⟩
    · exact ⟨before, row, after, split, .inl ⟨wild, state, opens, rfl⟩⟩

theorem added_spec {row : StateTransition E}
    (among : row ∈ table.added blank state) :
    row ∈ table.transitions ∧ row.in_state.ident = blank ∧
      state ∈ table.states blank := by
  obtain ⟨before, after, split, wild, opens⟩ := (mem_added_rows _ _).mp among
  refine ⟨by simp [split], wild, ?_⟩
  simp only [Table.opens, Bool.and_eq_true] at opens
  exact List.contains_iff_mem.mp opens.1

/-- What is asked of the rows without their sources and targets has one answer in
both tables. -/
theorem any_written_out (wild : table.Wild blank)
    (kept : ∀ row source, shared (row.written_at source) = shared row) :
    (table.written_out blank composite).transitions.any shared =
      table.transitions.any shared := by
  rw [Bool.eq_iff_iff, List.any_eq_true, List.any_eq_true]
  constructor
  · rintro ⟨written, among, holds⟩
    rcases mem_written_out.mp among with ⟨among, _⟩ | ⟨row, state, added, rfl⟩
    · exact ⟨written, among, holds⟩
    · exact ⟨row, (added_spec added).1, by rwa [kept] at holds⟩
  · rintro ⟨row, among, holds⟩
    by_cases own : row.in_state.ident = blank
    · obtain ⟨state, added⟩ := wild.written row among own
      exact ⟨_, mem_written_out.mpr (.inr ⟨row, state, added, rfl⟩),
        by rwa [kept]⟩
    · exact ⟨row, mem_written_out.mpr (.inl ⟨among, own⟩), holds⟩

theorem mem_states : state ∈ table.states blank ↔
    ∃ row ∈ table.transitions,
      (row.in_state.ident ≠ blank ∧ row.in_state.ident = state) ∨
        row.internal_transition = false ∧ row.out_state.ident = state := by
  unfold states
  simp only [List.mem_dedup, List.mem_flatMap, List.mem_append]
  constructor
  · rintro ⟨row, among, source | target⟩
    · split at source
      · cases source
      · rename_i own
        exact ⟨row, among, .inl ⟨own, (List.mem_singleton.mp source).symm⟩⟩
    · split at target
      · cases target
      · rename_i external
        exact ⟨row, among, .inr
          ⟨by simpa using external, (List.mem_singleton.mp target).symm⟩⟩
  · rintro ⟨row, among, ⟨own, rfl⟩ | ⟨external, rfl⟩⟩
    · exact ⟨row, among, .inl (by simp [own])⟩
    · exact ⟨row, among, .inr (by simp [external])⟩

theorem has_state_written_out (wild : table.Wild blank) (named : state ≠ blank) :
    (table.written_out blank composite).has_state state =
      table.has_state state := by
  unfold has_state
  rw [Bool.eq_iff_iff, List.any_eq_true, List.any_eq_true]
  simp only [Bool.or_eq_true, Bool.and_eq_true, decide_eq_true_eq,
    Bool.not_eq_true']
  constructor
  · rintro ⟨written, among, holds⟩
    rcases mem_written_out.mp among with ⟨among, _⟩ | ⟨row, at_state, added, rfl⟩
    · exact ⟨written, among, holds⟩
    · rcases holds with rfl | ⟨external, target⟩
      · obtain ⟨row, among, own | target⟩ := mem_states.mp (added_spec added).2.2
        · exact ⟨row, among, .inl own.2⟩
        · exact ⟨row, among, .inr target⟩
      · have external : row.internal_transition = false := external
        refine ⟨row, (added_spec added).1, .inr ⟨external, ?_⟩⟩
        rw [← target]
        simp [StateTransition.written_at, external]
  · rintro ⟨row, among, holds⟩
    by_cases own : row.in_state.ident = blank
    · obtain ⟨at_state, added⟩ := wild.written row among own
      refine ⟨_, mem_written_out.mpr (.inr ⟨row, at_state, added, rfl⟩), .inr ?_⟩
      rcases holds with same | ⟨external, target⟩
      · exact absurd (same.symm.trans own) named
      · exact ⟨external, by simp [StateTransition.written_at, external, target]⟩
    · exact ⟨row, mem_written_out.mpr (.inl ⟨among, own⟩), holds⟩

theorem history_written_out (wild : table.Wild blank) :
    (table.written_out blank composite).history = table.history := by
  unfold history
  rw [Bool.eq_iff_iff, List.any_eq_true, List.any_eq_true]
  constructor
  · rintro ⟨written, among, holds⟩
    rcases mem_written_out.mp among with ⟨among, _⟩ | ⟨row, state, added, rfl⟩
    · exact ⟨written, among, holds⟩
    · cases holds
  · rintro ⟨row, among, holds⟩
    refine ⟨row, mem_written_out.mpr (.inl ⟨among, fun own => ?_⟩), holds⟩
    rw [(wild.bare row among own).1] at holds
    cases holds

/-- A written-out row binds the data of its source only where the state has
some. -/
theorem has_data_written_out (wild : table.Wild blank) (named : state ≠ blank) :
    (table.written_out blank composite).has_data state =
      table.has_data state := by
  rw [Bool.eq_iff_iff]
  constructor
  · intro holds
    obtain ⟨written, among, holds⟩ := List.any_eq_true.mp holds
    simp only [Bool.or_eq_true, Bool.and_eq_true, decide_eq_true_eq] at holds
    have of_source {at_state : E.Ident} (same : at_state = state)
        (data : ((table.source composite at_state).data_type &&
          !(table.source composite at_state).composite) = true) :
        table.has_data state = true := by
      subst same
      simp only [source, Bool.and_eq_true] at data
      exact data.1
    rcases mem_written_out.mp among with ⟨among, _⟩ | ⟨row, at_state, added, rfl⟩
    · refine List.any_eq_true.mpr ⟨written, among, ?_⟩
      simpa only [Bool.or_eq_true, Bool.and_eq_true, decide_eq_true_eq] using holds
    · rcases holds with ⟨same, data⟩ | ⟨same, data⟩
      · exact of_source same data
      · unfold StateTransition.target_has_data at data
        unfold StateTransition.written_at at same data
        dsimp only at same data
        cases internal : row.internal_transition with
        | true =>
          rw [internal] at same data
          exact of_source same data
        | false =>
          rw [internal] at same data
          refine List.any_eq_true.mpr ⟨row, (added_spec added).1, ?_⟩
          simp only [Bool.or_eq_true, Bool.and_eq_true, decide_eq_true_eq]
          exact .inr ⟨same, data⟩
  · intro holds
    obtain ⟨row, among, holds⟩ := List.any_eq_true.mp holds
    refine List.any_eq_true.mpr ?_
    by_cases own : row.in_state.ident = blank
    · obtain ⟨at_state, added⟩ := wild.written row among own
      refine ⟨_, mem_written_out.mpr (.inr ⟨row, at_state, added, rfl⟩), ?_⟩
      simp only [Bool.or_eq_true, Bool.and_eq_true, decide_eq_true_eq] at holds ⊢
      rcases holds with ⟨same, _⟩ | ⟨same, data⟩
      · exact absurd (same.symm.trans own) named
      · cases internal : row.internal_transition with
        | true =>
          rw [(wild.bare row among own).2 internal] at same
          exact absurd same.symm named
        | false =>
          right
          unfold StateTransition.target_has_data at data ⊢
          simp only [StateTransition.written_at, internal]
          exact ⟨same, data⟩
    · exact ⟨row, mem_written_out.mpr (.inl ⟨among, own⟩), holds⟩

end Table

/-! ### Trees -/

namespace Tables

variable (blank : E.Ident) (tree : Tables E)

/-- All tables with their rows from `_` written out. -/
def written_out : Tables E :=
  { tree with
    node := fun node =>
      { tree.node node with
        toTable := (tree.node node).toTable.written_out blank
          fun state => (tree.child node state).isSome } }

/-- No completion and no lifecycle row from `_` is written out for a state. -/
def calm (node : Nat) (state : E.Ident) : Prop :=
  state ≠ blank ∧ ∀ row ∈ (tree.node node).added blank state,
    row.event.kind ≠ .completion ∧ row.event.kind ≠ .entry ∧
      row.event.kind ≠ .exit

/-- No row from `_` is written out for a state that its turn with an event would
look at. -/
def unopened (place : Slot) (state event : E.Ident) : Prop :=
  (∀ row ∈ (tree.node place.node).added blank state,
      row.triggered .normal event = false) ∧
    (((tree.rows place state).any fun row => row.triggered .normal event) ∨
      (∀ row ∈ (tree.node place.node).added blank state,
          row.triggered .unexpected event = false) ∧
        (((tree.rows place state).any fun row =>
            row.triggered .unexpected event) ∨
          ∀ row ∈ (tree.node place.node).added blank state,
            row.anonymous .unexpected = false))

/-- What happens does not touch a row from `_`: none is written out for the event
of a turn, nor for the error of a turn of a recovery, and none of a completion or
of the lifecycle for the states that a slot leaves and takes. -/
def Native : Happening E → Prop
  | .turn _ event place before =>
      tree.unopened blank place (before.state place).ident event.ident
  | .recovering _ _ place before =>
      ∀ row ∈ (tree.node place.node).added blank (before.state place).ident,
        row.event.kind ≠ .exception
  | .fired _ place row _ _ =>
      tree.calm blank place.node row.in_state.ident ∧
        (row.internal_transition = false →
          tree.calm blank place.node row.out_state.ident)
  | .reset place => tree.calm blank place.node (tree.initial place)
  | _ => True

instance (node : Nat) (state : E.Ident) :
    Decidable (tree.calm blank node state) :=
  inferInstanceAs (Decidable (_ ∧ _))

instance (place : Slot) (state event : E.Ident) :
    Decidable (tree.unopened blank place state event) :=
  inferInstanceAs (Decidable (_ ∧ _))

instance (happening : Happening E) : Decidable (tree.Native blank happening) :=
  match happening with
  | .turn _ event place before => inferInstanceAs (Decidable
      (tree.unopened blank place (before.state place).ident event.ident))
  | .recovering _ _ place before => inferInstanceAs (Decidable
      (∀ row ∈ (tree.node place.node).added blank (before.state place).ident,
        row.event.kind ≠ .exception))
  | .fired _ place row _ _ => inferInstanceAs (Decidable
      (tree.calm blank place.node row.in_state.ident ∧
        (row.internal_transition = false →
          tree.calm blank place.node row.out_state.ident)))
  | .reset place => inferInstanceAs (Decidable
      (tree.calm blank place.node (tree.initial place)))
  | .handled .. | .exited .. | .entered .. | .replaced .. | .log_state_change ..
  | .faulted .. | .recovered .. | .raised .. | .offered .. | .surfaced ..
  | .unentered .. | .follow_up .. | .queued .. | .put .. | .put_off ..
  | .released .. | .requeued .. | .dequeued .. | .failed =>
      inferInstanceAs (Decidable True)

/-- The rows from `_` of a tree of tables. -/
structure Wild : Prop where
  tables : ∀ node < tree.size, (tree.node node).Wild blank
  terminal : E.X ≠ blank

end Tables

/-- The tree of the written-out tables. -/
def Tree.written_out (blank : E.Ident) (tree : Tree E) : Tree E where
  toTables := tree.toTables.written_out blank
  size_pos := tree.size_pos
  root_depth := tree.root_depth
  owner_lt := tree.owner_lt
  depth_owner := tree.depth_owner
  regions_pos := tree.regions_pos
  variants := tree.variants
  in_composite := by
    intro node inside row among
    rcases Table.mem_written_out.mp among with ⟨among, _⟩ | ⟨_, _, _, rfl⟩
    · exact tree.in_composite node inside row among
    · rfl
  out_composite := by
    intro node inside row among external
    rcases Table.mem_written_out.mp among with ⟨among, _⟩ | ⟨wild, _, added, rfl⟩
    · exact tree.out_composite node inside row among external
    · have external : wild.internal_transition = false := external
      have composite := tree.out_composite node inside wild
        (Table.added_spec added).1 external
      unfold StateTransition.written_at
      rw [external]
      exact composite

end SmlRs.Macros
