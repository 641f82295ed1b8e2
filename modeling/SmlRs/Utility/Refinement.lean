/-
Module: SmlRs.Utility.Refinement
Purpose: Any sequence of calls of an event queue behaves as it does on a
  double-ended list of bounded length, and no call leaves the range of its
  arithmetic or of its array.
Trusted boundary: none
Main exports: Operation, Operation.apply, Operation.specify, Operation.checked,
  runs_refine
-/
import SmlRs.Utility.EventQueue

namespace SmlRs.Utility

variable {E : Type} {N : Nat}

/-- A call of an event queue. -/
inductive Operation (E : Type) where
  | defer (event : E)
  | process (event : E)
  | pop
  | clear

/-- What a call returns. -/
inductive Reply (E : Type) where
  | queued
  | queue_full
  | popped (event : Option E)
  | cleared

namespace Operation

/-- A call of the ring buffer. -/
def apply (queue : EventQueue E N) : Operation E → Reply E × EventQueue E N
  | .defer event =>
      match queue.defer event with
      | none => (.queue_full, queue)
      | some next => (.queued, next)
  | .process event =>
      match queue.process event with
      | none => (.queue_full, queue)
      | some next => (.queued, next)
  | .pop =>
      match queue.pop with
      | none => (.popped none, queue)
      | some (event, next) => (.popped (some event), next)
  | .clear => (.cleared, queue.clear)

/-- The call on a list of at most `capacity` events. -/
def specify (capacity : Nat) (items : List E) :
    Operation E → Reply E × List E
  | .defer event =>
      if items.length = capacity then (.queue_full, items)
      else (.queued, items ++ [event])
  | .process event =>
      if items.length = capacity then (.queue_full, items)
      else (.queued, event :: items)
  | .pop => (.popped items.head?, items.tail)
  | .clear => (.cleared, [])

end Operation

/-! ### Arithmetic that stops where it would saturate -/

namespace Checked

def add (first second : Nat) : Option Nat :=
  if first + second ≤ usizeMax then some (first + second) else none

def sub (first second : Nat) : Option Nat :=
  if second ≤ first then some (first - second) else none

/-- The cell behind the last event. -/
def tail (queue : EventQueue E N) : Option Nat := do
  let room ← sub N queue.len
  if queue.head ≥ room then sub queue.head room else add queue.head queue.len

/-- The cell in front of the head. -/
def before (queue : EventQueue E N) : Option Nat :=
  if queue.head = 0 then sub N 1 else sub queue.head 1

/-- The cell behind the head. -/
def behind (queue : EventQueue E N) : Option Nat := do
  let last ← sub N 1
  if queue.head = last then some 0 else add queue.head 1

/-- `defer`, which stops (`none`) where its arithmetic would saturate or its index
is out of range. -/
def defer (queue : EventQueue E N) (event : E) :
    Option (Option (EventQueue E N)) :=
  if queue.len = N ∨ N = 0 then some none
  else do
    let tail ← tail queue
    let len ← add queue.len 1
    if inside : tail < N then
      some (some
        { queue with events := queue.events.set tail (some event), len := len })
    else none

/-- `process`, likewise. -/
def process (queue : EventQueue E N) (event : E) :
    Option (Option (EventQueue E N)) :=
  if queue.len = N ∨ N = 0 then some none
  else do
    let newHead ← before queue
    let len ← add queue.len 1
    if inside : newHead < N then
      some (some
        { events := queue.events.set newHead (some event)
          head := newHead
          len := len })
    else none

/-- `pop`, likewise; a cell without an event is out of range, too. -/
def pop (queue : EventQueue E N) : Option (Option (E × EventQueue E N)) :=
  if queue.len = 0 then some none
  else do
    let head ← behind queue
    let len ← sub queue.len 1
    if inside : queue.head < N then
      match queue.events[queue.head] with
      | none => none
      | some event =>
          some (some (event,
            { events := queue.events.set queue.head none
              head := head
              len := len }))
    else none

/-- `clear`, for at most `fuel` events. -/
def clear (queue : EventQueue E N) : Nat → Option (EventQueue E N)
  | 0 => some queue
  | fuel + 1 => do
      match ← pop queue with
      | none => some queue
      | some (_, next) => clear next fuel

end Checked

namespace Operation

/-- A call that stops where its arithmetic would saturate or its index is out of
range. -/
def checked (queue : EventQueue E N) :
    Operation E → Option (Reply E × EventQueue E N)
  | .defer event =>
      (Checked.defer queue event).map fun
        | none => (.queue_full, queue)
        | some next => (.queued, next)
  | .process event =>
      (Checked.process queue event).map fun
        | none => (.queue_full, queue)
        | some next => (.queued, next)
  | .pop =>
      (Checked.pop queue).map fun
        | none => (.popped none, queue)
        | some (event, next) => (.popped (some event), next)
  | .clear => (Checked.clear queue queue.len).map fun next => (.cleared, next)

end Operation

/-! ### One call -/

section Call

variable (fits : N ≤ usizeMax) {queue : EventQueue E N} {items : List E}
  (represents : queue.Represents items)

include fits represents

theorem Checked.defer_eq (event : E) :
    Checked.defer queue event = some (queue.defer event) := by
  have bounded := represents.bounded
  have len := represents.len
  unfold Checked.defer EventQueue.defer
  split
  · rfl
  rename_i room
  have headLt := represents.head_lt (by omega)
  have subtracted : Checked.sub N queue.len = some (N - queue.len) :=
    if_pos (by omega)
  have grown : Checked.add queue.len 1 = some (saturatingAdd queue.len 1) := by
    rw [saturatingAdd_eq (by omega)]
    exact if_pos (by omega)
  have tail : Checked.tail queue =
      some (if queue.head ≥ N - queue.len then queue.head - (N - queue.len)
        else saturatingAdd queue.head queue.len) := by
    unfold Checked.tail
    rw [subtracted, Option.bind_eq_bind, Option.bind_some]
    split
    · exact if_pos (by omega)
    · rw [saturatingAdd_eq (by omega)]
      exact if_pos (by omega)
  have inside : (if queue.head ≥ N - queue.len then
      queue.head - (N - queue.len)
      else saturatingAdd queue.head queue.len) < N := by
    split
    · omega
    · rw [saturatingAdd_eq (by omega)]
      omega
  rw [tail, Option.bind_eq_bind, Option.bind_some, grown,
    Option.bind_some]
  dsimp only
  rw [dif_pos inside, dif_pos inside]

theorem Checked.process_eq (event : E) :
    Checked.process queue event = some (queue.process event) := by
  have bounded := represents.bounded
  have len := represents.len
  unfold Checked.process EventQueue.process
  split
  · rfl
  rename_i room
  have headLt := represents.head_lt (by omega)
  have grown : Checked.add queue.len 1 = some (saturatingAdd queue.len 1) := by
    rw [saturatingAdd_eq (by omega)]
    exact if_pos (by omega)
  have moved : Checked.before queue =
      some (if queue.head = 0 then N - 1 else queue.head - 1) := by
    unfold Checked.before
    split
    · exact if_pos (by omega)
    · exact if_pos (by omega)
  have inside : (if queue.head = 0 then N - 1 else queue.head - 1) < N := by
    split <;> omega
  rw [moved, Option.bind_eq_bind, Option.bind_some, grown,
    Option.bind_some]
  dsimp only
  rw [dif_pos inside, dif_pos inside]

theorem Checked.pop_eq : Checked.pop queue = some queue.pop := by
  have bounded := represents.bounded
  have len := represents.len
  unfold Checked.pop EventQueue.pop
  split
  · rfl
  rename_i waiting
  have headLt := represents.head_lt (by omega)
  have front := represents.cell 0 (by omega)
  rw [Lib.Window.slot_zero headLt] at front
  have last : Checked.sub N 1 = some (N - 1) := if_pos (by omega)
  have moved : Checked.behind queue =
      some (if queue.head = N - 1 then 0 else saturatingAdd queue.head 1) := by
    unfold Checked.behind
    rw [last, Option.bind_eq_bind, Option.bind_some]
    split
    · rfl
    · rw [saturatingAdd_eq (by omega)]
      exact if_pos (by omega)
  have shrunk : Checked.sub queue.len 1 = some (queue.len - 1) :=
    if_pos (by omega)
  rw [moved, Option.bind_eq_bind, Option.bind_some, shrunk,
    Option.bind_some]
  rw [dif_pos headLt, dif_pos headLt]
  -- The cell at the head holds the first of the items.
  cases items with
  | nil => exact absurd len waiting
  | cons event rest =>
    have held : queue.events[queue.head] = some event := by
      simpa [headLt] using front
    rw [held]

end Call

section Calls

variable (fits : N ≤ usizeMax)

include fits

theorem Checked.clear_eq {fuel : Nat} :
    ∀ {queue : EventQueue E N} {items : List E}, queue.Represents items →
      Checked.clear queue fuel = some (queue.popWhile fuel).2 := by
  induction fuel with
  | zero => exact fun _ => rfl
  | succ fuel ih =>
    intro queue items represents
    have popped := Checked.pop_eq fits represents
    unfold Checked.clear EventQueue.popWhile
    rw [popped, Option.bind_eq_bind, Option.bind_some]
    cases items with
    | nil => simp [EventQueue.pop_empty represents]
    | cons event rest =>
      obtain ⟨next, taken, remains⟩ :=
        EventQueue.pop_represents fits represents
      simp only [taken]
      exact ih remains

/-- One call does what it does on the list, and stops nowhere. -/
theorem Operation.refine {queue : EventQueue E N} {items : List E}
    (represents : queue.Represents items) (operation : Operation E) :
    (operation.apply queue).1 = (operation.specify N items).1 ∧
      (operation.apply queue).2.Represents (operation.specify N items).2 ∧
      operation.checked queue = some (operation.apply queue) := by
  cases operation with
  | defer event =>
    have checks := Checked.defer_eq fits represents event
    have deferred := EventQueue.defer_represents fits represents event
    simp only [Operation.apply, Operation.specify, Operation.checked, checks]
    split at deferred
    · rename_i full
      simpa [deferred, full] using represents
    · rename_i room
      obtain ⟨next, run, remains⟩ := deferred
      simpa [run, room] using remains
  | process event =>
    have checks := Checked.process_eq fits represents event
    have processed := EventQueue.process_represents fits represents event
    simp only [Operation.apply, Operation.specify, Operation.checked, checks]
    split at processed
    · rename_i full
      simpa [processed, full] using represents
    · rename_i room
      obtain ⟨next, run, remains⟩ := processed
      simpa [run, room] using remains
  | pop =>
    have checks := Checked.pop_eq fits represents
    simp only [Operation.apply, Operation.specify, Operation.checked, checks]
    cases items with
    | nil => simp [EventQueue.pop_empty represents, represents]
    | cons event rest =>
      obtain ⟨next, run, remains⟩ := EventQueue.pop_represents fits represents
      simp [run, remains]
  | clear =>
    have checks := @Checked.clear_eq _ _ fits queue.len _ _ represents
    have emptied := EventQueue.popAll_represents fits represents
    refine ⟨rfl, emptied.2, ?_⟩
    unfold Operation.checked
    rw [checks]
    rfl

end Calls

/-! ### Any sequence of calls -/

/-- Calls one after the other, with what they return. -/
def runs {State : Type} (call : State → Operation E → Reply E × State)
    (state : State) : List (Operation E) → List (Reply E) × State
  | [] => ([], state)
  | operation :: rest =>
      let (reply, next) := call state operation
      let (replies, final) := runs call next rest
      (reply :: replies, final)

/-- Calls one after the other, up to one that stops. -/
def checked_runs (queue : EventQueue E N) :
    List (Operation E) → Option (List (Reply E) × EventQueue E N)
  | [] => some ([], queue)
  | operation :: rest => do
      let (reply, next) ← operation.checked queue
      let (replies, final) ← checked_runs next rest
      some (reply :: replies, final)

/-- Any sequence of calls returns what it returns on a list and leaves a ring that
stores what is left in the list: its length is `len`, every item is in its cell
and every other cell is empty.  No call leaves the range of its arithmetic or of
the array. -/
def Refines (queue : EventQueue E N) (items : List E)
    (operations : List (Operation E)) : Prop :=
  let ring := runs (fun queue operation => operation.apply queue) queue operations
  let list := runs (fun items operation => operation.specify N items) items
    operations
  ring.1 = list.1 ∧ ring.2.Represents list.2 ∧
    checked_runs queue operations = some ring

theorem runs_from (fits : N ≤ usizeMax) {operations : List (Operation E)} :
    ∀ {queue : EventQueue E N} {items : List E}, queue.Represents items →
      Refines queue items operations := by
  induction operations with
  | nil => exact fun represents => ⟨rfl, represents, rfl⟩
  | cons operation rest ih =>
    intro queue items represents
    obtain ⟨replies, remains, checks⟩ :=
      Operation.refine fits represents operation
    obtain ⟨later, left, checked⟩ := ih remains
    refine ⟨?_, left, ?_⟩
    · unfold runs
      exact congrArg₂ _ replies later
    · unfold checked_runs
      rw [checks, Option.bind_eq_bind, Option.bind_some]
      dsimp only
      rw [checked]
      rfl

/-- A queue of any capacity is a bounded double-ended list. -/
theorem runs_refine (fits : N ≤ usizeMax) (operations : List (Operation E)) :
    Refines (EventQueue.new : EventQueue E N) [] operations :=
  runs_from fits EventQueue.new_represents

theorem runs_refine_wrapping :
    (2 ≤ usizeMax) ∧ Refines (EventQueue.new : EventQueue Nat 2) []
      [.process 1, .defer 2, .defer 3, .pop, .defer 3, .clear] :=
  ⟨by decide, runs_refine (by decide) _⟩

end SmlRs.Utility
