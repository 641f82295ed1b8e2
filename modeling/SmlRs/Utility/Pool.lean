/-
Module: SmlRs.Utility.Pool
Purpose: The pool of machines of `src/utility.rs`, and that a batch depends only on
  the order of the events of each machine.
Trusted boundary: none
Main exports: IndexedEvent, SmPool, SmPool.process_event_batch,
  SmPool.process_indexed_batch, batches_by_machine
-/
import SmlRs.Lib.Indexed
import SmlRs.Utility.EventQueue

namespace SmlRs.Utility

open Lib

/-- Associates an event with the index of the machine that should receive it. -/
structure IndexedEvent (E : Type) where
  index : Nat
  event : E

/-- A pool of state machines, with the slice its storage is seen as. -/
structure SmPool (M : Type) where
  storage : List M

namespace SmPool

variable {M E R : Type}

/-- `process_indexed`. A dispatch function returns its result and the machine as it
leaves it; `none` is returned for an index out of range. -/
def process_indexed (pool : SmPool M) (index : Nat) (event : E)
    (dispatch : M → E → R × M) : Option R × SmPool M :=
  match pool.storage[index]? with
  | none => (none, pool)
  | some machine =>
      let (result, machine) := dispatch machine event
      (some result, ⟨pool.storage.set index machine⟩)

/-- One round of the loop of a batch: the count and the pool. -/
def process_one (dispatch : M → E → M) (state : Nat × SmPool M) (index : Nat)
    (event : E) : Nat × SmPool M :=
  match state.2.storage[index]? with
  | some machine =>
      (saturatingAdd state.1 1,
        ⟨state.2.storage.set index (dispatch machine event)⟩)
  | none => state

/-- `process_indexed_batch`. Each machine is given a clone of the event. -/
def process_indexed_batch (pool : SmPool M) (indices : List Nat) (event : E)
    (dispatch : M → E → M) : Nat × SmPool M :=
  indices.foldl (fun state index => process_one dispatch state index event)
    (0, pool)

/-- `process_event_batch`. -/
def process_event_batch (pool : SmPool M) (events : List (IndexedEvent E))
    (dispatch : M → E → M) : Nat × SmPool M :=
  events.foldl (fun state entry =>
    process_one dispatch state entry.index entry.event) (0, pool)

/-- The events of a list that are for one machine, in their order. -/
def subsequence (index : Nat) (events : List (IndexedEvent E)) : List E :=
  (events.filter fun entry => entry.index = index).map (·.event)

/-- The entries of a list that name a machine of the pool. -/
def valid (pool : SmPool M) (events : List (IndexedEvent E)) :
    List (IndexedEvent E) :=
  events.filter fun entry => entry.index < pool.storage.length

/-- The entries as updates of the storage. -/
def updates (events : List (IndexedEvent E)) : List (Nat × E) :=
  events.map fun entry => (entry.index, entry.event)

section Batch

variable {pool : SmPool M} {dispatch : M → E → M}
  {events others : List (IndexedEvent E)}

/-- A round is a call of `process_indexed`, and it is counted where the call finds
a machine. -/
theorem process_one_indexed (state : Nat × SmPool M) (index : Nat) (event : E) :
    process_one dispatch state index event =
      let (result, pool) := state.2.process_indexed index event
        fun machine event => ((), dispatch machine event)
      (if result.isSome then saturatingAdd state.1 1 else state.1, pool) := by
  unfold process_one process_indexed
  cases state.2.storage[index]? with
  | none => rfl
  | some machine => rfl

theorem own_updates (index : Nat) :
    own index (updates events) = subsequence index events := by
  unfold own updates subsequence
  rw [List.filter_map, List.map_map]
  rfl

theorem valid_updates (size : Nat) :
    ((updates events).filter fun entry => entry.1 < size).length =
      (events.filter fun entry => entry.index < size).length := by
  unfold updates
  rw [List.filter_map, List.length_map]
  rfl

/-- One round changes the named machine and counts it if there is one. -/
theorem process_one_eq (count : Nat) (storage : List M) (entry : IndexedEvent E) :
    process_one dispatch (min count usizeMax, ⟨storage⟩) entry.index entry.event =
      (min (count + if entry.index < storage.length then 1 else 0) usizeMax,
        ⟨update dispatch storage (entry.index, entry.event)⟩) := by
  unfold process_one update
  by_cases inside : entry.index < storage.length
  · rw [if_pos inside, List.getElem?_eq_getElem inside]
    dsimp only
    rw [saturatingAdd_min, List.modify_eq_set_getElem?,
      List.getElem?_eq_getElem inside]
    rfl
  · have outside := Nat.le_of_not_lt inside
    rw [if_neg inside, List.getElem?_eq_none outside,
      List.modify_eq_set_getElem?, List.getElem?_eq_none outside]
    rfl

theorem batch_from (count : Nat) (storage : List M) :
    events.foldl (fun state entry =>
        process_one dispatch state entry.index entry.event)
          (min count usizeMax, ⟨storage⟩) =
      (min (count + (events.filter fun entry =>
          entry.index < storage.length).length) usizeMax,
        ⟨updated dispatch storage (updates events)⟩) := by
  induction events generalizing count storage with
  | nil => rfl
  | cons entry rest ih =>
    rw [List.foldl_cons, process_one_eq, ih]
    have same : (update dispatch storage (entry.index, entry.event)).length =
        storage.length := List.length_modify _ _ _
    rw [same]
    by_cases inside : entry.index < storage.length
    · simp only [inside, if_true, decide_true, List.filter_cons_of_pos,
        List.length_cons]
      rw [Nat.add_right_comm, Nat.add_assoc]
      rfl
    · simp only [inside, if_false, decide_false, Bool.false_eq_true,
        not_false_eq_true, List.filter_cons_of_neg, Nat.add_zero]
      rfl

/-- What a batch counts and what it leaves. -/
theorem process_event_batch_eq :
    pool.process_event_batch events dispatch =
      (min (pool.valid events).length usizeMax,
        ⟨updated dispatch pool.storage (updates events)⟩) := by
  have run := @batch_from M E dispatch events 0 pool.storage
  rw [Nat.zero_min, Nat.zero_add] at run
  exact run

/-- A batch over indices is the batch of the indices paired with the event. -/
theorem process_indexed_batch_eq (indices : List Nat) (event : E) :
    pool.process_indexed_batch indices event dispatch =
      pool.process_event_batch (indices.map fun index => ⟨index, event⟩)
        dispatch := by
  unfold process_indexed_batch process_event_batch
  rw [List.foldl_map]

end Batch

end SmPool

/-- Batches depend only on the order of the events of each machine: two lists with
the same events for each machine of the pool leave the same storage and return the
same count, which is the number of entries that name a machine, cut off at
`usize::MAX`. Machines that are not named stay as they are, and a batch over indices
is the batch of the indices paired with the event. -/
theorem batches_by_machine {M E : Type} (pool : SmPool M) (dispatch : M → E → M)
    (events others : List (IndexedEvent E))
    (same : ∀ index < pool.storage.length,
      SmPool.subsequence index events = SmPool.subsequence index others) :
    pool.process_event_batch events dispatch =
        pool.process_event_batch others dispatch ∧
      (pool.process_event_batch events dispatch).1 =
        min (pool.valid events).length usizeMax ∧
      (∀ index, (∀ entry ∈ events, entry.index ≠ index) →
        (pool.process_event_batch events dispatch).2.storage[index]? =
          pool.storage[index]?) ∧
      ∀ (indices : List Nat) (event : E),
        pool.process_indexed_batch indices event dispatch =
          pool.process_event_batch (indices.map fun index => ⟨index, event⟩)
            dispatch := by
  have own_same : ∀ index < pool.storage.length,
      own index (SmPool.updates events) = own index (SmPool.updates others) := by
    intro index inside
    rw [SmPool.own_updates, SmPool.own_updates, same index inside]
  refine ⟨?_, ?_, ?_, SmPool.process_indexed_batch_eq⟩
  · have lengths := valid_length_congr own_same
    rw [SmPool.valid_updates, SmPool.valid_updates] at lengths
    rw [SmPool.process_event_batch_eq, SmPool.process_event_batch_eq,
      updated_congr own_same]
    unfold SmPool.valid
    rw [lengths]
  · rw [SmPool.process_event_batch_eq]
  · intro index unnamed
    rw [SmPool.process_event_batch_eq]
    dsimp only
    rw [updated_getElem?, own_eq_nil]
    · simp
    · intro entry among
      obtain ⟨named, listed, rfl⟩ := List.mem_map.mp among
      exact unnamed named listed

/-- A machine that keeps the digits it is given. -/
def digits (machine event : Nat) : Nat := 10 * machine + event

def mixed : List (IndexedEvent Nat) := [⟨0, 1⟩, ⟨1, 2⟩, ⟨7, 3⟩, ⟨0, 4⟩]

def sorted : List (IndexedEvent Nat) := [⟨0, 1⟩, ⟨0, 4⟩, ⟨1, 2⟩]

theorem batches_by_machine_mixed :
    SmPool.process_event_batch ⟨[5, 6]⟩ mixed digits =
        SmPool.process_event_batch ⟨[5, 6]⟩ sorted digits ∧
      SmPool.process_event_batch ⟨[5, 6]⟩ mixed digits = (3, ⟨[514, 62]⟩) :=
  ⟨(batches_by_machine ⟨[5, 6]⟩ digits mixed sorted (by decide)).1, rfl⟩

/-- One event more than a `usize` can count. -/
def flood : List (IndexedEvent Unit) := List.replicate (usizeMax + 1) ⟨0, ()⟩

theorem flood_valid : (SmPool.valid ⟨[()]⟩ flood).length = usizeMax + 1 := by
  unfold SmPool.valid flood
  rw [List.filter_replicate_of_pos (by rfl), List.length_replicate]

/-- All entries name the machine, and the count has stopped. -/
theorem flood_not_counted :
    (SmPool.process_event_batch ⟨[()]⟩ flood fun machine _ => machine).1 ≠
      (SmPool.valid ⟨[()]⟩ flood).length := by
  rw [SmPool.process_event_batch_eq, flood_valid]
  exact Nat.ne_of_lt (Nat.lt_succ_of_le (Nat.min_le_right _ _))

end SmlRs.Utility
