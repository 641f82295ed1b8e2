/-
Module: SmlRs.Lib.Window
Purpose: The arithmetic of a circular window that stores a list in an array of
  fixed size.
Trusted boundary: none
Main exports: Window.slot, Window.slot_injective, Window.slot_advance,
  Window.slot_retreat
-/
import Mathlib.Data.List.Basic

namespace SmlRs.Lib

namespace Window

/-- The array index of the element `offset` places behind `head`. Both are
below `size`, so the sum wraps at most once. -/
def slot (size head offset : Nat) : Nat :=
  if head + offset < size then head + offset else head + offset - size

variable {size head first second : Nat}

theorem slot_lt (headLt : head < size) (offsetLt : first < size) :
    slot size head first < size := by
  unfold slot
  split <;> omega

theorem slot_injective (firstLt : first < size) (secondLt : second < size)
    (same : slot size head first = slot size head second) :
    first = second := by
  unfold slot at same
  split at same <;> split at same <;> omega

theorem slot_zero (headLt : head < size) : slot size head 0 = head := by
  simp [slot, headLt]

/-- Moving the head one place forward shifts every offset down by one. -/
theorem slot_advance (headLt : head < size) (offsetLt : first + 1 < size) :
    slot size (if head = size - 1 then 0 else head + 1) first =
      slot size head (first + 1) := by
  unfold slot
  split <;> split <;> split <;> omega

/-- The cell the head leaves is the last one of the window that starts behind
it. -/
theorem slot_advance_last (headLt : head < size) :
    slot size (if head = size - 1 then 0 else head + 1) (size - 1) = head := by
  unfold slot
  split <;> split <;> omega

/-- Moving the head one place back shifts every offset up by one. -/
theorem slot_retreat (headLt : head < size) (offsetLt : first + 1 < size) :
    slot size (if head = 0 then size - 1 else head - 1) (first + 1) =
      slot size head first := by
  unfold slot
  split <;> split <;> split <;> omega

end Window

/-- Reading a list index by index over its length gives the list back. -/
theorem filterMap_range_getElem? {α : Type*} (items : List α) :
    (List.range items.length).filterMap (items[·]?) = items := by
  induction items with
  | nil => rfl
  | cons head rest inductionHypothesis =>
      simpa [List.range_succ_eq_map, List.filterMap_map, Function.comp_def]
        using inductionHypothesis

end SmlRs.Lib
