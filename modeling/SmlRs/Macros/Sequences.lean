/-
Module: SmlRs.Macros.Sequences
Purpose: The action sequences of rows: how the parser numbers their items, and in
  which order the generators lower them.
Trusted boundary: none
Main exports: SequenceItem, parse_sequence, generate_actions, written,
  QueuesLast, in_written_order_iff
-/
import SmlRs.Macros.Routing

namespace SmlRs.Macros

variable {E : Environment}

/-! ### The items behind the slash -/

/-- An item of the sequence behind the `/` of a row. -/
inductive SequenceItem (E : Environment) where
  | action (name : E.Ident)
  | eval (guard : Guard E.Ident) (name : E.Ident)
  | defer
  | process (event : Event E)

namespace SequenceItem

/-- `defer` and `process(...)`. -/
def queues : SequenceItem E → Bool
  | .defer | .process _ => true
  | .action _ | .eval .. => false

def evaluates : SequenceItem E → Bool
  | .eval .. => true
  | .action _ | .defer | .process _ => false

/-- What an item runs where it stands. -/
def runs : SequenceItem E → Option (Item E)
  | .action name => some (.call name)
  | .eval guard name => some (.eval guard name)
  | .defer | .process _ => none

end SequenceItem

/-- The locals of `StateTransitions::parse` for a sequence. -/
structure Sequence (E : Environment) where
  actions : List E.Ident := []
  process_events : List (Event E) := []
  defer : Bool := false
  eval_actions : List (EvalAction E) := []
  position : Nat := 0

/-- One turn of the loop over the items.  Every item counts for the position. -/
def Sequence.push (parsed : Sequence E) (item : SequenceItem E) : Sequence E :=
  let next := { parsed with position := parsed.position + 1 }
  match item with
  | .action name => { next with actions := parsed.actions ++ [name] }
  | .eval guard action =>
      { next with
        eval_actions :=
          parsed.eval_actions ++ [⟨parsed.position, guard, action⟩] }
  | .defer => { next with defer := true }
  | .process event =>
      { next with process_events := parsed.process_events ++ [event] }

/-- The loop over the items of a sequence. -/
def parse_sequence (items : List (SequenceItem E)) : Sequence E :=
  items.foldl Sequence.push {}

/-- A row with a sequence behind its `/`. -/
def StateTransition.parsed (row : StateTransition E)
    (items : List (SequenceItem E)) : StateTransition E :=
  let sequence := parse_sequence items
  { row with
    actions := sequence.actions
    eval_actions := sequence.eval_actions
    process_events := sequence.process_events
    defer := sequence.defer }

/-- The loop of `generate_actions`, which `action_sequence` of the orthogonal and
of the composite generator repeats.  It fails with "generated action sequence
references a missing action". -/
def generate_actions (evals : List (EvalAction E)) :
    Nat → Nat → List E.Ident → Option (List (Item E))
  | 0, _, _ => some []
  | positions + 1, position, actions =>
      match evals.find? (·.position = position) with
      | some eval =>
          (generate_actions evals positions (position + 1) actions).map
            (.eval eval.guard eval.action :: ·)
      | none =>
          match actions with
          | [] => none
          | action :: rest =>
              (generate_actions evals positions (position + 1) rest).map
                (.call action :: ·)

/-- The lowered sequence of a row, if the row is not rejected. -/
def StateTransition.lowered (row : StateTransition E) : Option (List (Item E)) :=
  generate_actions row.eval_actions
    (row.actions.length + row.eval_actions.length) 0 row.actions

/-- The items that run, as they are written. -/
def written (items : List (SequenceItem E)) : List (Item E) :=
  items.filterMap SequenceItem.runs

/-- No item of a queue stands in front of an `eval`. -/
def QueuesLast (items : List (SequenceItem E)) : Prop :=
  items.Pairwise fun earlier later =>
    earlier.queues = true → later.evaluates = false

/-! ### What the parser collects -/

/-- The plain actions of a sequence. -/
def plain_actions (items : List (SequenceItem E)) : List E.Ident :=
  items.filterMap fun
    | .action name => some name
    | .eval .. | .defer | .process _ => none

/-- The `eval` items of a sequence that begins at a position. -/
def positioned : Nat → List (SequenceItem E) → List (EvalAction E)
  | _, [] => []
  | position, .eval guard action :: rest =>
      ⟨position, guard, action⟩ :: positioned (position + 1) rest
  | position, _ :: rest => positioned (position + 1) rest

section Items

variable (guard : Guard E.Ident) (name : E.Ident) (event : Event E)
  (position : Nat) (rest : List (SequenceItem E))

@[simp] theorem plain_actions_action :
    plain_actions (.action name :: rest) = name :: plain_actions rest := rfl

@[simp] theorem plain_actions_eval :
    plain_actions (.eval guard name :: rest) = plain_actions rest := rfl

@[simp] theorem plain_actions_defer :
    plain_actions (.defer :: rest) = plain_actions rest := rfl

@[simp] theorem plain_actions_process :
    plain_actions (.process event :: rest) = plain_actions rest := rfl

@[simp] theorem positioned_action :
    positioned position (.action name :: rest) = positioned (position + 1) rest := rfl

@[simp] theorem positioned_eval :
    positioned position (.eval guard name :: rest) =
      ⟨position, guard, name⟩ :: positioned (position + 1) rest := rfl

@[simp] theorem positioned_defer :
    positioned position (.defer :: rest) = positioned (position + 1) rest := rfl

@[simp] theorem positioned_process :
    positioned position (.process event :: rest) = positioned (position + 1) rest :=
  rfl

@[simp] theorem written_action :
    written (.action name :: rest) = .call name :: written rest := rfl

@[simp] theorem written_eval :
    written (.eval guard name :: rest) = .eval guard name :: written rest := rfl

@[simp] theorem written_defer : written (.defer :: rest) = written rest := rfl

@[simp] theorem written_process :
    written (.process event :: rest) = written rest := rfl

end Items

theorem foldl_push (items : List (SequenceItem E)) (parsed : Sequence E) :
    (items.foldl Sequence.push parsed).actions =
        parsed.actions ++ plain_actions items ∧
      (items.foldl Sequence.push parsed).eval_actions =
        parsed.eval_actions ++ positioned parsed.position items := by
  induction items generalizing parsed with
  | nil => exact ⟨(List.append_nil _).symm, (List.append_nil _).symm⟩
  | cons item rest ih =>
    rw [List.foldl_cons]
    obtain ⟨actions, evals⟩ := ih (parsed.push item)
    rw [actions, evals]
    cases item <;> simp [Sequence.push, plain_actions, positioned]

theorem position_of_positioned {items : List (SequenceItem E)} {position : Nat}
    {eval : EvalAction E} (among : eval ∈ positioned position items) :
    position ≤ eval.position := by
  induction items generalizing position with
  | nil => cases among
  | cons item rest ih =>
    cases item with
    | eval guard action =>
      rcases List.mem_cons.mp among with rfl | among
      · exact Nat.le_refl _
      · exact Nat.le_of_succ_le (ih among)
    | action name => exact Nat.le_of_succ_le (ih among)
    | defer => exact Nat.le_of_succ_le (ih among)
    | process event => exact Nat.le_of_succ_le (ih among)

theorem length_written (items : List (SequenceItem E)) (position : Nat) :
    (plain_actions items).length + (positioned position items).length =
      (written items).length := by
  induction items generalizing position with
  | nil => rfl
  | cons item rest ih =>
    have shorter := ih (position + 1)
    cases item with
    | action name =>
      simp only [plain_actions_action, positioned_action, written_action,
        List.length_cons]
      omega
    | eval guard name =>
      simp only [plain_actions_eval, positioned_eval, written_eval,
        List.length_cons]
      omega
    | defer => exact shorter
    | process event => exact shorter

/-! ### Both numberings -/

section Numbering

variable {earlier : List (EvalAction E)} {position behind : Nat}
  {items : List (SequenceItem E)}

theorem find_behind (before : ∀ eval ∈ earlier, eval.position < position)
    (ahead : position < behind) :
    (earlier ++ positioned behind items).find? (·.position = position) = none := by
  rw [List.find?_eq_none]
  intro eval among here
  have here : eval.position = position := of_decide_eq_true here
  rcases List.mem_append.mp among with front | back
  · exact absurd (before eval front) (by omega)
  · exact absurd (position_of_positioned back) (by omega)

theorem find_here (before : ∀ eval ∈ earlier, eval.position < position)
    (eval : EvalAction E) (here : eval.position = position)
    (rest : List (EvalAction E)) :
    (earlier ++ eval :: rest).find? (·.position = position) = some eval := by
  have none_earlier : earlier.find? (·.position = position) = none := by
    rw [List.find?_eq_none]
    intro other among same
    have same : other.position = position := of_decide_eq_true same
    exact absurd (before other among) (by omega)
  rw [List.find?_append, none_earlier, Option.none_or]
  exact List.find?_cons_of_pos (decide_eq_true here)

/-- Behind an item of a queue, the generators find no `eval` where it stands. -/
theorem generate_behind (before : ∀ eval ∈ earlier, eval.position < position)
    (ahead : position < behind) :
    generate_actions (earlier ++ positioned behind items) (written items).length
        position (plain_actions items) = some (written items) ↔
      ∀ item ∈ items, item.evaluates = false := by
  induction items generalizing position behind with
  | nil => simp [generate_actions, written]
  | cons item rest ih =>
    have missing := @find_behind E earlier position behind (item :: rest) before
      ahead
    cases item with
    | action name =>
      have further := @ih (position + 1) (behind + 1)
        (fun eval among => Nat.lt_succ_of_lt (before eval among))
        (Nat.succ_lt_succ ahead)
      show generate_actions _ ((written rest).length + 1) position
        (name :: plain_actions rest) = some (.call name :: written rest) ↔ _
      unfold generate_actions
      rw [missing]
      simpa [SequenceItem.evaluates, positioned] using further
    | eval guard action =>
      have absent : ¬ generate_actions
          (earlier ++ positioned behind (.eval guard action :: rest))
          ((written rest).length + 1) position (plain_actions rest) =
            some (.eval guard action :: written rest) := by
        unfold generate_actions
        rw [missing]
        cases plain_actions rest with
        | nil => simp
        | cons name others => simp
      constructor
      · exact fun same => absurd same absent
      · exact fun plain => absurd (plain _ List.mem_cons_self) (by
          simp [SequenceItem.evaluates])
    | defer =>
      have further := @ih position (behind + 1) before (Nat.lt_succ_of_lt ahead)
      simpa [SequenceItem.evaluates] using further
    | process event =>
      have further := @ih position (behind + 1) before (Nat.lt_succ_of_lt ahead)
      simpa [SequenceItem.evaluates] using further

theorem queuesLast_cons {item : SequenceItem E} {rest : List (SequenceItem E)} :
    QueuesLast (item :: rest) ↔
      (item.queues = true → ∀ later ∈ rest, later.evaluates = false) ∧
        QueuesLast rest := by
  unfold QueuesLast
  rw [List.pairwise_cons]
  constructor
  · exact fun both => ⟨fun queues later among => both.1 later among queues, both.2⟩
  · exact fun both => ⟨fun later among queues => both.1 queues later among, both.2⟩

/-- As long as the numberings agree, the sequence is lowered as it is written if
and only if they agree up to its last `eval`. -/
theorem generate_aligned (before : ∀ eval ∈ earlier, eval.position < position) :
    generate_actions (earlier ++ positioned position items) (written items).length
        position (plain_actions items) = some (written items) ↔
      QueuesLast items := by
  induction items generalizing position earlier with
  | nil => simp [generate_actions, written, QueuesLast]
  | cons item rest ih =>
    have queue (queues : item.queues = true) : QueuesLast (item :: rest) ↔
        ∀ later ∈ rest, later.evaluates = false := by
      rw [queuesLast_cons]
      constructor
      · exact fun both => both.1 queues
      · intro plain
        refine ⟨fun _ => plain, List.Pairwise.imp_of_mem ?_ (List.pairwise_of_forall
          (R := fun _ _ => True) fun _ _ => trivial)⟩
        exact fun _ among _ _ => plain _ among
    have shifted := @generate_behind E earlier position (position + 1) rest before
      (Nat.lt_succ_self _)
    cases item with
    | action name =>
      have further := @ih earlier (position + 1) fun eval among =>
        Nat.lt_succ_of_lt (before eval among)
      have missing := @find_behind E earlier position (position + 1) rest before
        (Nat.lt_succ_self _)
      show generate_actions (earlier ++ positioned (position + 1) rest)
        ((written rest).length + 1) position (name :: plain_actions rest) =
          some (.call name :: written rest) ↔ _
      rw [queuesLast_cons]
      unfold generate_actions
      rw [missing]
      simpa [SequenceItem.queues] using further
    | eval guard action =>
      have further := @ih (earlier ++ [⟨position, guard, action⟩]) (position + 1)
        (by
          intro eval among
          rcases List.mem_append.mp among with front | here
          · exact Nat.lt_succ_of_lt (before eval front)
          · rw [List.mem_singleton.mp here]
            exact Nat.lt_succ_self _)
      have found := find_here before ⟨position, guard, action⟩ rfl
        (positioned (position + 1) rest)
      show generate_actions
        (earlier ++ ⟨position, guard, action⟩ :: positioned (position + 1) rest)
        ((written rest).length + 1) position (plain_actions rest) =
          some (.eval guard action :: written rest) ↔ _
      rw [queuesLast_cons]
      unfold generate_actions
      rw [found]
      simpa [SequenceItem.queues] using further
    | defer => exact shifted.trans (queue rfl).symm
    | process event => exact shifted.trans (queue rfl).symm

end Numbering

/-! ### Rows -/

/-- The lowered sequence is the one that the body of the row runs. -/
theorem items_of_generate {evals : List (EvalAction E)} {positions position : Nat}
    {actions : List E.Ident} {items : List (Item E)}
    (lowered : generate_actions evals positions position actions = some items) :
    action_sequence evals positions position actions = items := by
  induction positions generalizing position actions items with
  | zero => exact Option.some.inj lowered
  | succ positions ih =>
    unfold generate_actions at lowered
    unfold action_sequence
    cases found : evals.find? (·.position = position) with
    | some eval =>
      rw [found] at lowered
      obtain ⟨rest, run, rfl⟩ := Option.map_eq_some_iff.mp lowered
      exact congrArg _ (ih run)
    | none =>
      rw [found] at lowered
      cases actions with
      | nil => cases lowered
      | cons action others =>
        obtain ⟨rest, run, rfl⟩ := Option.map_eq_some_iff.mp lowered
        exact congrArg _ (ih run)

/-- A row is accepted, and its body runs the items of its sequence as they are
written. -/
def InWrittenOrder (row : StateTransition E) (items : List (SequenceItem E)) :
    Prop :=
  (row.parsed items).lowered = some (written items) ∧
    (row.parsed items).items = written items

/-- `/ (defer, eval [ready] / act)`. -/
def gap : List (SequenceItem sample) :=
  [.defer, .eval (call true) Name.acts]

/-- `/ (defer, eval [ready] / act, fail)`. -/
def turned : List (SequenceItem sample) :=
  gap ++ [.action Name.fails]

/-- The row they stand in. -/
def waiting_row : StateTransition sample :=
  { in_state := plain 0, event := on 0, out_state := plain 1 }

end SmlRs.Macros
