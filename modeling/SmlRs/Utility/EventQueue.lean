/-
Module: SmlRs.Utility.EventQueue
Purpose: The allocation-free ring buffer of `src/utility.rs`, and that it
  refines a double-ended list of bounded length.
Trusted boundary: none
Main exports: EventQueue, EventQueue.Represents, EventQueue.toList,
  EventQueue.defer_represents, EventQueue.process_represents,
  EventQueue.pop_represents
-/
import Mathlib.Algebra.Ring.Nat
import SmlRs.Lib.Window

namespace SmlRs.Utility

open Lib

/-- The largest `usize` of a 64-bit target. -/
def usizeMax : Nat := 2 ^ 64 - 1

/-- `usize::saturating_add`. Subtraction on `Nat` already saturates at zero. -/
def saturatingAdd (first second : Nat) : Nat := min (first + second) usizeMax

theorem saturatingAdd_eq {first second : Nat}
    (fits : first + second ≤ usizeMax) :
    saturatingAdd first second = first + second :=
  Nat.min_eq_left fits

/-- A counter that has saturated stays so. -/
theorem saturatingAdd_min (first second : Nat) :
    saturatingAdd (min first usizeMax) second = min (first + second) usizeMax := by
  unfold saturatingAdd
  omega

/-- Allocation-free FIFO used for deferred and explicitly processed events. -/
structure EventQueue (E : Type*) (N : Nat) where
  events : Vector (Option E) N
  head : Nat
  len : Nat

namespace EventQueue

variable {E : Type*} {N : Nat}

def new : EventQueue E N :=
  { events := Vector.replicate N none
    head := 0
    len := 0 }

def isEmpty (queue : EventQueue E N) : Bool := queue.len == 0

/-- Defers an event until events already in the queue have been processed;
`none` is `Err(QueueFull)`, which leaves the queue as it was. -/
def defer (queue : EventQueue E N) (event : E) : Option (EventQueue E N) :=
  if queue.len = N ∨ N = 0 then
    none
  else
    let tail :=
      if queue.head ≥ N - queue.len then queue.head - (N - queue.len)
      else saturatingAdd queue.head queue.len
    if inside : tail < N then
      some
        { queue with
          events := queue.events.set tail (some event)
          len := saturatingAdd queue.len 1 }
    else
      none

/-- Schedules an event ahead of currently deferred events. -/
def process (queue : EventQueue E N) (event : E) : Option (EventQueue E N) :=
  if queue.len = N ∨ N = 0 then
    none
  else
    let newHead := if queue.head = 0 then N - 1 else queue.head - 1
    if inside : newHead < N then
      some
        { events := queue.events.set newHead (some event)
          head := newHead
          len := saturatingAdd queue.len 1 }
    else
      none

/-- Removes the next event. -/
def pop (queue : EventQueue E N) : Option (E × EventQueue E N) :=
  if queue.len = 0 then
    none
  else if inside : queue.head < N then
    match queue.events[queue.head] with
    | none => none
    | some event =>
        some (event,
          { events := queue.events.set queue.head none
            head :=
              if queue.head = N - 1 then 0 else saturatingAdd queue.head 1
            len := queue.len - 1 })
  else
    none

/-- The events `while let Some(event) = queue.pop()` takes out, with the queue
it leaves. Each pop shortens the queue, so its length bounds the loop. -/
def popWhile (queue : EventQueue E N) : Nat → List E × EventQueue E N
  | 0 => ([], queue)
  | fuel + 1 =>
      match queue.pop with
      | none => ([], queue)
      | some (event, rest) =>
          let (events, final) := rest.popWhile fuel
          (event :: events, final)

/-- Takes every event out, as a loop over `pop` does. -/
def popAll (queue : EventQueue E N) : List E × EventQueue E N :=
  queue.popWhile queue.len

/-- Drops all queued events. -/
def clear (queue : EventQueue E N) : EventQueue E N := queue.popAll.2

/-- The queued events, next one first. -/
def toList (queue : EventQueue E N) : List E :=
  (List.range queue.len).filterMap fun offset =>
    queue.events[Window.slot N queue.head offset]?.join

/-- The ring stores exactly `items`: the cell `offset` places behind the head
holds item number `offset`, and the cells behind the last item are empty. -/
structure Represents (queue : EventQueue E N) (items : List E) : Prop where
  len : queue.len = items.length
  bounded : items.length ≤ N
  head_lt : 0 < N → queue.head < N
  cell : ∀ offset < N,
    queue.events[Window.slot N queue.head offset]? = some items[offset]?

theorem Represents.toList_eq {queue : EventQueue E N} {items : List E}
    (represents : queue.Represents items) : queue.toList = items := by
  rw [toList, represents.len]
  conv_rhs => rw [← filterMap_range_getElem? items]
  apply List.filterMap_congr
  intro offset member
  have below : offset < items.length := List.mem_range.mp member
  rw [represents.cell offset (Nat.lt_of_lt_of_le below represents.bounded)]
  rfl

theorem new_represents : (new : EventQueue E N).Represents [] where
  len := rfl
  bounded := Nat.zero_le _
  head_lt := id
  cell := by
    intro offset below
    have headLt : 0 < N := Nat.lt_of_le_of_lt (Nat.zero_le _) below
    simp [new, Window.slot_lt headLt below]

/-- The branch that avoids adding two large values computes the slot behind
the last item. -/
private theorem tail_eq_slot {head len : Nat} (fits : N ≤ usizeMax)
    (lenLt : len < N) :
    (if head ≥ N - len then head - (N - len) else saturatingAdd head len) =
      Window.slot N head len := by
  unfold Window.slot
  split
  · rw [if_neg (by omega)]
    omega
  · rw [if_pos (by omega), saturatingAdd_eq (by omega)]

/-- `defer` appends while there is room and fails exactly when the queue is
full. -/
theorem defer_represents (fits : N ≤ usizeMax) {queue : EventQueue E N}
    {items : List E} (represents : queue.Represents items) (event : E) :
    if items.length = N then queue.defer event = none
    else ∃ next, queue.defer event = some next ∧
      next.Represents (items ++ [event]) := by
  split
  · rename_i full
    simp [defer, represents.len, full]
  · rename_i room
    have bounded := represents.bounded
    have lenLt : items.length < N := by omega
    have headLt := represents.head_lt (by omega)
    have tailLt := Window.slot_lt headLt lenLt
    have tail := @tail_eq_slot N queue.head items.length fits lenLt
    have computed : queue.defer event = some
        { events := queue.events.set (Window.slot N queue.head items.length)
            (some event) tailLt
          head := queue.head
          len := items.length + 1 } := by
      simp only [defer, represents.len]
      rw [if_neg (by omega)]
      have grown : saturatingAdd items.length 1 = items.length + 1 :=
        saturatingAdd_eq (by omega)
      simp only [tail, grown]
      rw [dif_pos tailLt]
    have grownBounded : (items ++ [event]).length ≤ N := by
      simp only [List.length_append, List.length_singleton]
      omega
    refine ⟨_, computed, by simp, grownBounded, fun _ => headLt, ?_⟩
    intro offset below
    by_cases last : offset = items.length
    · subst last
      simp
    · have apart : Window.slot N queue.head items.length ≠
          Window.slot N queue.head offset := fun same =>
        last (Window.slot_injective lenLt below same).symm
      simp only [Vector.getElem?_set_ne tailLt apart,
        represents.cell offset below]
      rcases Nat.lt_or_gt_of_ne last with earlier | later
      · rw [List.getElem?_append_left earlier]
      · rw [List.getElem?_eq_none (by omega),
          List.getElem?_eq_none (by simp; omega)]

/-- `process` prepends while there is room and fails exactly when the queue is
full. -/
theorem process_represents (fits : N ≤ usizeMax) {queue : EventQueue E N}
    {items : List E} (represents : queue.Represents items) (event : E) :
    if items.length = N then queue.process event = none
    else ∃ next, queue.process event = some next ∧
      next.Represents (event :: items) := by
  split
  · rename_i full
    simp [process, represents.len, full]
  · rename_i room
    have bounded := represents.bounded
    have headLt := represents.head_lt (by omega)
    have newLt : (if queue.head = 0 then N - 1 else queue.head - 1) < N := by
      split <;> omega
    have computed : queue.process event = some
        { events := queue.events.set
            (if queue.head = 0 then N - 1 else queue.head - 1) (some event)
            newLt
          head := if queue.head = 0 then N - 1 else queue.head - 1
          len := items.length + 1 } := by
      simp only [process, represents.len]
      rw [if_neg (by omega), dif_pos newLt, saturatingAdd_eq (by omega)]
    have grownBounded : (event :: items).length ≤ N := by
      simp only [List.length_cons]
      omega
    refine ⟨_, computed, by simp, grownBounded, fun _ => newLt, ?_⟩
    intro offset below
    cases offset with
    | zero => simp [Window.slot_zero newLt]
    | succ offset =>
        have apart : (if queue.head = 0 then N - 1 else queue.head - 1) ≠
            Window.slot N
              (if queue.head = 0 then N - 1 else queue.head - 1)
              (offset + 1) := by
          intro same
          have := Window.slot_injective (by omega) below
            ((Window.slot_zero newLt).trans same)
          omega
        rw [List.getElem?_cons_succ]
        refine (Vector.getElem?_set_ne newLt apart).trans ?_
        rw [Window.slot_retreat headLt below]
        exact represents.cell offset (by omega)

theorem pop_empty {queue : EventQueue E N} (represents : queue.Represents []) :
    queue.pop = none := by
  simp [pop, represents.len]

/-- `pop` removes the front item. -/
theorem pop_represents (fits : N ≤ usizeMax) {queue : EventQueue E N}
    {event : E} {rest : List E} (represents : queue.Represents (event :: rest)) :
    ∃ next, queue.pop = some (event, next) ∧ next.Represents rest := by
  have bounded := represents.bounded
  simp only [List.length_cons] at bounded
  have headLt := represents.head_lt (by omega)
  have front := represents.cell 0 (by omega)
  rw [Window.slot_zero headLt] at front
  have front : queue.events[queue.head] = some event := by
    simpa [headLt] using front
  have headNext : (if queue.head = N - 1 then 0
        else saturatingAdd queue.head 1) =
      (if queue.head = N - 1 then 0 else queue.head + 1) := by
    rw [saturatingAdd_eq (by omega)]
  have nextLt : (if queue.head = N - 1 then 0 else queue.head + 1) < N := by
    split <;> omega
  have computed : queue.pop = some (event,
      { events := queue.events.set queue.head none
        head := if queue.head = N - 1 then 0 else queue.head + 1
        len := rest.length }) := by
    simp only [pop, represents.len]
    rw [if_neg (by simp), dif_pos headLt]
    simp [front, headNext]
  refine ⟨_, computed, rfl, by omega, fun _ => nextLt, ?_⟩
  intro offset below
  by_cases inner : offset + 1 < N
  · have apart : queue.head ≠ Window.slot N queue.head (offset + 1) := by
      intro same
      have := Window.slot_injective (by omega) inner
        ((Window.slot_zero headLt).trans same)
      omega
    simp only [Window.slot_advance headLt inner,
      Vector.getElem?_set_ne headLt apart]
    exact represents.cell (offset + 1) inner
  · obtain rfl : offset = N - 1 := by omega
    simp only [Window.slot_advance_last headLt, Vector.getElem?_set_self]
    rw [List.getElem?_eq_none (by omega)]

theorem popWhile_represents (fits : N ≤ usizeMax) :
    ∀ {items : List E} {queue : EventQueue E N} {fuel : Nat},
      queue.Represents items → items.length ≤ fuel →
        (queue.popWhile fuel).1 = items ∧
          (queue.popWhile fuel).2.Represents []
  | [], queue, 0, represents, _ => ⟨rfl, represents⟩
  | [], queue, fuel + 1, represents, _ => by
      simp [popWhile, pop_empty represents, represents]
  | event :: rest, queue, fuel + 1, represents, enough => by
      obtain ⟨next, popped, nextRepresents⟩ := pop_represents fits represents
      have shorter : rest.length ≤ fuel := by simpa using enough
      have tail := popWhile_represents fits nextRepresents shorter
      simp [popWhile, popped, tail.1, tail.2]

theorem popAll_represents (fits : N ≤ usizeMax) {queue : EventQueue E N}
    {items : List E} (represents : queue.Represents items) :
    queue.popAll.1 = items ∧ queue.popAll.2.Represents [] :=
  popWhile_represents fits represents (Nat.le_of_eq represents.len.symm)

end EventQueue

end SmlRs.Utility
