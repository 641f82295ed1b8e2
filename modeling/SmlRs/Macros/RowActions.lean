/-
Module: SmlRs.Macros.RowActions
Purpose: The guards and the actions of rows are read exactly where they are spelled.
Trusted boundary: none
Main exports: condition_of_takes, condition_takes, items_of_takes, items_takes,
  actions_of_takes, actions_take
-/
import SmlRs.Macros.RowGuards
import SmlRs.Macros.RowStates

namespace SmlRs.Macros.Rows

open Lib Names Parse

variable {D X : Type} (syn : Syn D X)

/-! ### Guards between brackets -/

section Conditions

variable {input rest : TokenStream}
  {guard : Option (GuardExpression (AsyncIdent Text))}

theorem condition_of_takes
    (takes : GuardExpression.parse_condition.Takes input guard rest) :
    ∃ front, input = front ++ rest ∧ GuardTokens front guard := by
  unfold GuardExpression.parse_condition at takes
  rw [takes_peek_bind, takes_ite] at takes
  rcases takes with ⟨_, takes⟩ | ⟨_, takes⟩
  · obtain ⟨inner, mid, read, ends⟩ := takes_bind.mp takes
    obtain ⟨rfl, rfl⟩ := takes_pure.mp ends
    obtain ⟨content, found, inside⟩ := takes_within.mp read
    exact ⟨[.group .bracket content], group_front_eq.mp found,
      .some (GuardExpression.guard_takes_iff.mp inside)⟩
  · obtain ⟨rfl, rfl⟩ := takes_pure.mp takes
    exact ⟨[], rfl, .none⟩

theorem condition_takes {front : TokenStream} (spelled : GuardTokens front guard)
    (apart : group_front .bracket rest = none) :
    GuardExpression.parse_condition.Takes (front ++ rest) guard rest := by
  unfold GuardExpression.parse_condition
  rw [takes_peek_bind, takes_ite]
  cases spelled with
  | none =>
    right
    rw [List.nil_append, apart]
    exact ⟨Bool.false_ne_true, takes_pure.mpr ⟨rfl, rfl⟩⟩
  | @some content guard parsed =>
    left
    exact ⟨rfl, takes_bind.mpr ⟨guard, rest, takes_within.mpr
      ⟨content, group_front_cons, GuardExpression.guard_takes_iff.mpr parsed⟩,
      takes_pure.mpr ⟨rfl, rfl⟩⟩⟩

end Conditions

/-! ### Items -/

namespace ActionSequence

section Items

variable {input rest : TokenStream} {sequence last : ActionSequence X}
  {callback : AsyncIdent Text}

theorem callback_takes :
    parse_callback.Takes input callback rest ↔
      ∃ front, input = front ++ rest ∧ CallbackTokens front callback := by
  unfold parse_callback
  constructor
  · intro takes
    obtain ⟨is_async, mid, word, further⟩ := takes_bind.mp takes
    obtain ⟨ident, behind, found, ends⟩ := takes_bind.mp further
    obtain ⟨rfl, rfl⟩ := takes_pure.mp ends
    obtain ⟨rfl, own⟩ := ident_front_eq.mp (takes_expect.mp found)
    rcases takes_accept.mp word with ⟨rfl, _, present⟩ | ⟨rfl, _, same⟩
    · exact ⟨[_, _], word_front_eq.mp present, .async own⟩
    · exact ⟨[_], same.symm, .plain own⟩
  · intro formed
    obtain ⟨front, rfl, spelled⟩ := formed
    cases spelled with
    | @plain ident own =>
      have other : ident ≠ "async".toList := by
        intro same
        subst same
        exact absurd own (by decide)
      exact takes_bind.mpr ⟨false, _,
        takes_accept.mpr (.inr ⟨rfl, word_front_other other, rfl⟩), takes_bind.mpr
          ⟨ident, rest, takes_expect.mpr (ident_front_cons own),
            takes_pure.mpr ⟨rfl, rfl⟩⟩⟩
    | @async ident own =>
      exact takes_bind.mpr ⟨true, _,
        takes_accept.mpr (.inl ⟨rfl, (), word_front_cons⟩), takes_bind.mpr
          ⟨ident, rest, takes_expect.mpr (ident_front_cons own),
            takes_pure.mpr ⟨rfl, rfl⟩⟩⟩

/-- What is behind an item goes on with none. -/
structure Stopped (rest : TokenStream) : Prop where
  parenthesis : group_front .parenthesis rest = none
  bracket : group_front .bracket rest = none

/-- An action that is read is spelled, and is added to the sequence. -/
theorem single_of_takes {mid : TokenStream}
    (called : parse_callback.Takes input callback mid)
    (takes : (sequence.parse_operation syn callback).Takes mid last rest) :
    ∃ front item, input = front ++ rest ∧ SingleTokens syn front item ∧
      last = { sequence.add item with position := sequence.position } := by
  obtain ⟨front, rfl, spelled⟩ := callback_takes.mp called
  unfold parse_operation at takes
  rcases takes_ite.mp takes with ⟨same, takes⟩ | ⟨other, takes⟩
  · unfold parse_defer at takes
    rcases takes_ite.mp takes with ⟨_, failed⟩ | ⟨plain, ends⟩
    · exact absurd failed takes_fail
    · obtain ⟨rfl, rfl⟩ := takes_pure.mp ends
      cases spelled with
      | async => exact absurd rfl plain
      | plain own =>
        obtain rfl := same
        exact ⟨[_], .defer, rfl, .defer, rfl⟩
  · rw [takes_peek_bind] at takes
    rcases takes_ite.mp takes with ⟨same, takes⟩ | ⟨_, takes⟩
    · unfold parse_process at takes
      rcases takes_ite.mp takes with ⟨_, failed⟩ | ⟨plain, takes⟩
      · exact absurd failed takes_fail
      · obtain ⟨event, behind, read, ends⟩ := takes_bind.mp takes
        obtain ⟨rfl, rfl⟩ := takes_pure.mp ends
        obtain ⟨content, found, inside⟩ := takes_within.mp read
        obtain rfl := group_front_eq.mp found
        cases spelled with
        | async => exact absurd rfl plain
        | plain own =>
          rw [Bool.and_eq_true, decide_eq_true_eq] at same
          obtain rfl := same.1
          exact ⟨[_, _], .process event, rfl, .process inside, rfl⟩
    · obtain ⟨rfl, rfl⟩ := takes_pure.mp takes
      exact ⟨front, .action callback, rfl, .action spelled other, rfl⟩

/-- An action that is spelled is read. -/
theorem single_takes {front : TokenStream} {item : ActionItem X}
    (spelled : SingleTokens syn front item)
    (stopped : group_front .parenthesis rest = none) :
    ∃ callback mid, parse_callback.Takes (front ++ rest) callback mid ∧
      (callback.ident = "eval".toList → mid = rest) ∧
      (sequence.parse_operation syn callback).Takes mid
        { sequence.add item with position := sequence.position } rest := by
  cases spelled with
  | @action tokens callback called apart =>
    refine ⟨callback, rest, callback_takes.mpr ⟨front, rfl, called⟩, fun _ => rfl, ?_⟩
    unfold parse_operation
    rw [takes_ite, takes_peek_bind, stopped]
    refine .inr ⟨apart, takes_ite.mpr (.inr ⟨?_, takes_pure.mpr ⟨rfl, rfl⟩⟩)⟩
    rw [Option.isSome_none, Bool.and_false]
    exact Bool.false_ne_true
  | defer =>
    refine ⟨⟨"defer".toList, false⟩, rest,
      callback_takes.mpr ⟨[_], rfl, .plain (by decide)⟩,
      fun same => absurd same (by decide), ?_⟩
    unfold parse_operation parse_defer
    exact takes_ite.mpr (.inl ⟨rfl,
      takes_ite.mpr (.inr ⟨Bool.false_ne_true, takes_pure.mpr ⟨rfl, rfl⟩⟩)⟩)
  | @process content event inside =>
    refine ⟨⟨"process".toList, false⟩, .group .parenthesis content :: rest,
      callback_takes.mpr ⟨[_], rfl, .plain (by decide)⟩,
      fun same => absurd same (by decide), ?_⟩
    unfold parse_operation parse_process
    rw [takes_ite, takes_peek_bind]
    refine .inr ⟨(by decide : "process".toList ≠ "defer".toList),
      takes_ite.mpr (.inl ⟨rfl, takes_ite.mpr (.inr ⟨Bool.false_ne_true, ?_⟩)⟩)⟩
    exact takes_bind.mpr ⟨event, rest,
      takes_within.mpr ⟨content, group_front_cons, inside⟩, takes_pure.mpr ⟨rfl, rfl⟩⟩

theorem item_of_takes (takes : (sequence.parse_item syn).Takes input last rest) :
    ∃ front item, input = front ++ rest ∧ ItemTokens syn front item ∧
      last = sequence.add item := by
  unfold parse_item at takes
  obtain ⟨callback, mid, called, further⟩ := takes_bind.mp takes
  obtain ⟨next, behind, sequenced, ends⟩ := takes_bind.mp further
  obtain ⟨rfl, rfl⟩ := takes_pure.mp ends
  unfold parse_sequenced at sequenced
  rw [takes_peek_bind] at sequenced
  rcases takes_ite.mp sequenced with ⟨same, evaluated⟩ | ⟨_, operated⟩
  · unfold parse_eval at evaluated
    rcases takes_ite.mp evaluated with ⟨_, failed⟩ | ⟨plain, evaluated'⟩
    · exact absurd failed takes_fail
    · obtain ⟨guard, behind', read, further'⟩ := takes_bind.mp evaluated'
      obtain ⟨content, found, inside⟩ := takes_within.mp read
      obtain rfl := group_front_eq.mp found
      obtain ⟨_, mid', slash, further''⟩ := takes_bind.mp further'
      obtain ⟨joint, rfl⟩ := punct_front_eq.mp (takes_expect.mp slash)
      obtain ⟨action, behind'', called', ends'⟩ := takes_bind.mp further''
      obtain ⟨rfl, rfl⟩ := takes_pure.mp ends'
      obtain ⟨tokens, rfl, spelled'⟩ := callback_takes.mp called'
      obtain ⟨front, rfl, spelled⟩ := callback_takes.mp called
      cases spelled with
      | async => exact absurd rfl plain
      | plain own =>
        rw [Bool.and_eq_true, decide_eq_true_eq] at same
        obtain rfl := same.1
        exact ⟨_ :: _ :: _ :: tokens, .eval guard action, rfl,
          .eval (GuardExpression.guard_takes_iff.mp inside) spelled', rfl⟩
  · obtain ⟨front, item, same, spelled, rfl⟩ := single_of_takes syn called operated
    exact ⟨front, item, same, .single spelled, by cases item <;> rfl⟩

theorem item_takes {front : TokenStream} {item : ActionItem X}
    (spelled : ItemTokens syn front item) (stopped : Stopped rest) :
    (sequence.parse_item syn).Takes (front ++ rest) (sequence.add item) rest := by
  unfold parse_item
  cases spelled with
  | single alone =>
    obtain ⟨callback, mid, called, evaluates, operated⟩ :=
      @single_takes _ _ syn _ sequence _ _ alone stopped.parenthesis
    refine takes_bind.mpr ⟨callback, mid, called, takes_bind.mpr
      ⟨{ sequence.add item with position := sequence.position }, rest, ?_,
        takes_pure.mpr ⟨by cases item <;> rfl, rfl⟩⟩⟩
    unfold parse_sequenced
    rw [takes_peek_bind, takes_ite]
    refine .inr ⟨?_, operated⟩
    intro both
    rw [Bool.and_eq_true, decide_eq_true_eq] at both
    rw [evaluates both.1, stopped.bracket] at both
    cases both.2
  | @eval content tokens guard action joint parsed called =>
    refine takes_bind.mpr ⟨⟨"eval".toList, false⟩, _,
      callback_takes.mpr ⟨[_], rfl, .plain (by decide)⟩, takes_bind.mpr
        ⟨{ sequence.add (.eval guard action) with position := sequence.position }, rest,
          ?_, takes_pure.mpr ⟨rfl, rfl⟩⟩⟩
    unfold parse_sequenced parse_eval
    rw [takes_peek_bind, takes_ite]
    refine .inl ⟨rfl, takes_ite.mpr (.inr ⟨Bool.false_ne_true, ?_⟩)⟩
    exact takes_bind.mpr ⟨guard, _, takes_within.mpr ⟨content, group_front_cons,
        GuardExpression.guard_takes_iff.mpr parsed⟩,
      takes_bind.mpr ⟨(), _, takes_expect.mpr punct_front_cons, takes_bind.mpr
        ⟨action, rest, callback_takes.mpr ⟨tokens, rfl, called⟩,
          takes_pure.mpr ⟨rfl, rfl⟩⟩⟩⟩

/-! ### Sequences -/

theorem callback_ne_nil {front : TokenStream} (spelled : CallbackTokens front callback) :
    front ≠ [] := by
  cases spelled <;> exact List.cons_ne_nil _ _

theorem item_ne_nil {front : TokenStream} {item : ActionItem X}
    (spelled : ItemTokens syn front item) : front ≠ [] := by
  cases spelled with
  | single alone =>
    cases alone with
    | action called => exact callback_ne_nil called
    | defer => exact List.cons_ne_nil _ _
    | process => exact List.cons_ne_nil _ _
  | eval => exact List.cons_ne_nil _ _

/-- A sequence that is read to its end is spelled. The induction is on the turns of
the loop. -/
theorem items_of_takes {fuel : Nat}
    (takes : (parse_items syn fuel sequence).Takes input last []) :
    ∃ items, ItemsTokens syn input items ∧ last = items.foldl add sequence := by
  induction fuel generalizing input sequence with
  | zero =>
    obtain ⟨rfl, empty⟩ := takes_pure.mp takes
    obtain rfl := empty.symm
    exact ⟨[], .nil, rfl⟩
  | succ fuel ih =>
    unfold parse_items at takes
    obtain ⟨empty, mid, looked, further⟩ := takes_bind.mp takes
    obtain ⟨rfl, rfl⟩ := takes_is_empty.mp looked
    rcases takes_ite.mp further with ⟨_, ends⟩ | ⟨_, further'⟩
    · obtain ⟨rfl, same⟩ := takes_pure.mp ends
      obtain rfl := same.symm
      exact ⟨[], .nil, rfl⟩
    · obtain ⟨next, behind, read, further''⟩ := takes_bind.mp further'
      obtain ⟨front, item, rfl, spelled, rfl⟩ := item_of_takes syn read
      obtain ⟨empty, mid', looked', looped⟩ := takes_bind.mp further''
      obtain ⟨rfl, rfl⟩ := takes_is_empty.mp looked'
      rcases takes_ite.mp looped with ⟨_, ends⟩ | ⟨_, looped'⟩
      · obtain ⟨rfl, same⟩ := takes_pure.mp ends
        obtain rfl := same.symm
        rw [List.append_nil]
        exact ⟨[item], .last spelled, rfl⟩
      · obtain ⟨_, more, comma, again⟩ := takes_bind.mp looped'
        obtain ⟨joint, rfl⟩ := punct_front_eq.mp (takes_expect.mp comma)
        obtain ⟨items, spelled', rfl⟩ := ih again
        exact ⟨item :: items, .more spelled spelled', rfl⟩

/-- A sequence that is spelled is read to its end, in as many turns as it has
tokens. -/
theorem items_take {items : List (ActionItem X)} {fuel : Nat}
    (spelled : ItemsTokens syn input items) (enough : input.length ≤ fuel) :
    (parse_items syn fuel sequence).Takes input (items.foldl add sequence) [] := by
  induction spelled generalizing sequence fuel with
  | nil =>
    cases fuel with
    | zero => exact takes_pure.mpr ⟨rfl, rfl⟩
    | succ fuel =>
      unfold parse_items
      exact takes_bind.mpr ⟨true, [], takes_is_empty.mpr ⟨rfl, rfl⟩,
        takes_ite.mpr (.inl ⟨rfl, takes_pure.mpr ⟨rfl, rfl⟩⟩)⟩
  | @last tokens item only =>
    have present := item_ne_nil syn only
    cases fuel with
    | zero => exact absurd (List.length_eq_zero_iff.mp (Nat.le_zero.mp enough)) present
    | succ fuel =>
      have read := @item_takes _ _ syn [] sequence _ _ only ⟨rfl, rfl⟩
      rw [List.append_nil] at read
      unfold parse_items
      refine takes_bind.mpr ⟨_, _, takes_is_empty.mpr ⟨rfl, rfl⟩,
        takes_ite.mpr (.inr ⟨?_, takes_bind.mpr ⟨_, _, read, takes_bind.mpr
          ⟨true, [], takes_is_empty.mpr ⟨rfl, rfl⟩,
            takes_ite.mpr (.inl ⟨rfl, takes_pure.mpr ⟨rfl, rfl⟩⟩)⟩⟩⟩)⟩
      rw [List.isEmpty_iff]
      exact present
  | @more tokens rest item items joint first further ih =>
    have present := item_ne_nil syn first
    cases fuel with
    | zero => simp at enough
    | succ fuel =>
      have enough' : rest.length ≤ fuel := by
        simp only [List.length_append, List.length_cons] at enough
        omega
      have read := @item_takes _ _ syn (.punct ',' joint :: rest) sequence _ _ first
        ⟨rfl, rfl⟩
      unfold parse_items
      refine takes_bind.mpr ⟨_, _, takes_is_empty.mpr ⟨rfl, rfl⟩,
        takes_ite.mpr (.inr ⟨?_, takes_bind.mpr ⟨_, _, read, takes_bind.mpr
          ⟨false, _, takes_is_empty.mpr ⟨rfl, rfl⟩, takes_ite.mpr
            (.inr ⟨Bool.false_ne_true, takes_bind.mpr ⟨(), rest,
              takes_expect.mpr punct_front_cons, ih enough'⟩⟩)⟩⟩⟩)⟩
      rw [List.isEmpty_iff]
      simp

/-! ### What stands behind the slash -/

/-- What is read behind the `/` is spelled. A single action counts no position. -/
theorem actions_of_takes (takes : (parse syn).Takes input last rest) :
    ∃ front items position, input = front ++ rest ∧ ActionTokens syn front items ∧
      last = { items.foldl add ({} : ActionSequence X) with position := position } := by
  unfold parse at takes
  obtain ⟨present, mid, slash, further⟩ := takes_bind.mp takes
  rcases takes_ite.mp further with ⟨rfl, further'⟩ | ⟨missing, ends⟩
  · rcases takes_accept.mp slash with ⟨_, _, found⟩ | ⟨missing, _⟩
    · obtain ⟨joint, rfl⟩ := punct_front_eq.mp found
      rw [takes_peek_bind] at further'
      rcases takes_ite.mp further' with ⟨_, inside⟩ | ⟨_, single⟩
      · obtain ⟨content, found', read⟩ := takes_within.mp inside
        obtain rfl := group_front_eq.mp found'
        obtain ⟨fuel, mid', looked, looped⟩ := takes_bind.mp read
        obtain ⟨rfl, rfl⟩ := takes_look.mp looked
        obtain ⟨items, spelled, rfl⟩ := items_of_takes syn looped
        exact ⟨[_, _], items, _, rfl, .sequence spelled, rfl⟩
      · obtain ⟨callback, mid', called, operated⟩ := takes_bind.mp single
        obtain ⟨front, item, rfl, spelled, rfl⟩ := single_of_takes syn called operated
        exact ⟨_ :: front, [item], 0, rfl, .single spelled, rfl⟩
    · cases missing
  · obtain ⟨rfl, rfl⟩ := takes_pure.mp ends
    rcases takes_accept.mp slash with ⟨rfl, _⟩ | ⟨_, _, rfl⟩
    · exact absurd rfl missing
    · exact ⟨[], [], 0, rfl, .none, rfl⟩

/-- What is spelled behind the `/` is read. -/
theorem actions_take {front : TokenStream} {items : List (ActionItem X)}
    (spelled : ActionTokens syn front items) (slash : punct_front '/' rest = none)
    (stopped : group_front .parenthesis rest = none) :
    ∃ position, (parse syn).Takes (front ++ rest)
      { items.foldl add ({} : ActionSequence X) with position := position } rest := by
  unfold parse
  cases spelled with
  | none =>
    exact ⟨0, takes_bind.mpr ⟨false, rest, takes_accept.mpr (.inr ⟨rfl, slash, rfl⟩),
      takes_ite.mpr (.inr ⟨Bool.false_ne_true, takes_pure.mpr ⟨rfl, rfl⟩⟩)⟩⟩
  | @single tokens item joint alone =>
    obtain ⟨callback, mid, called, _, operated⟩ :=
      @single_takes _ _ syn _ ({} : ActionSequence X) _ _ alone stopped
    have apart : group_front .parenthesis (tokens ++ rest) = none := by
      cases alone with
      | action called => cases called <;> rfl
      | defer => rfl
      | process => rfl
    refine ⟨0, takes_bind.mpr ⟨true, tokens ++ rest,
      takes_accept.mpr (.inl ⟨rfl, (), punct_front_cons⟩), takes_ite.mpr (.inl ⟨rfl, ?_⟩)⟩⟩
    rw [takes_peek_bind, takes_ite, apart]
    exact .inr ⟨Bool.false_ne_true, takes_bind.mpr ⟨callback, mid, called, operated⟩⟩
  | @sequence content items joint inner =>
    refine ⟨(items.foldl add ({} : ActionSequence X)).position, takes_bind.mpr
      ⟨true, .group .parenthesis content :: rest,
      takes_accept.mpr (.inl ⟨rfl, (), punct_front_cons⟩), takes_ite.mpr (.inl ⟨rfl, ?_⟩)⟩⟩
    rw [takes_peek_bind, takes_ite]
    exact .inl ⟨rfl, takes_within.mpr ⟨content, group_front_cons, takes_bind.mpr
      ⟨content.length, content, takes_look.mpr ⟨rfl, rfl⟩,
        items_take syn inner (Nat.le_refl _)⟩⟩⟩

end Items

end ActionSequence

end SmlRs.Macros.Rows
