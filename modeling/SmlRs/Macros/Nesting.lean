/-
Module: SmlRs.Macros.Nesting
Purpose: Which slots are nested in the state of another one, and which are active
  behind tokens that are not set.
Trusted boundary: none
Main exports: Parted, Seated, Nests, Live, Parted.alone, live_passes
-/
import SmlRs.Macros.Partition
import SmlRs.Macros.SettleSites

namespace SmlRs.Macros

open Lib

variable {E : Environment}

/-- The orthogonal tables of a tree are generated from rows, and `X` is no composite
state. -/
structure Tree.Parted (tree : Tree E) : Prop where
  regions : ∀ node < tree.size, (tree.node node).orthogonal = true →
    ∃ blank rows, Generated blank rows (tree.node node).toTable
  terminal : ∀ owner, tree.child owner E.X = none

namespace Tables

variable (tree : Tables E)

/-- The slots of the orthogonal tables hold states of their regions. -/
def Seated (core : Core E) : Prop :=
  ∀ node < tree.size, (tree.node node).orthogonal = true → tree.InRegions node core

/-- A slot belongs to the table that is nested in the state of another one. -/
def Nests (view : View E) (outer inner : Slot) : Prop :=
  tree.child outer.node (view.state outer).ident = some inner.node ∧
    inner ∈ tree.slots inner.node

/-- A slot is active, and no slot that it is nested in has its token set. -/
inductive Live (view : View E) : Slot → Prop where
  | root {place : Slot} (among : place ∈ tree.slots 0) : Live view place
  | nested {outer inner : Slot} (above : Live view outer)
      (free : view.exit_skip outer = false) (nests : tree.Nests view outer inner) :
      Live view inner

/-- Whether a slot is live, looked up through the tables above its own. -/
def lives (view : View E) : Nat → Slot → Bool
  | 0, place => (tree.slots 0).contains place
  | depth + 1, place =>
      (tree.slots 0).contains place ||
        (tree.slots place.node).contains place &&
          (tree.slots (tree.node place.node).owner).any fun outer =>
            lives view depth outer && !view.exit_skip outer &&
              tree.child outer.node (view.state outer).ident = some place.node

end Tables

namespace Tree

variable {tree : Tree E} {core : Core E} {view : View E} {outer inner place : Slot}
  {node top : Nat}

/-! ### Tables under tables -/

theorem within_owner (pos : 0 < node) (inside : node < tree.size) (apart : node ≠ top)
    (within : tree.Within node top) : tree.Within (tree.node node).owner top := by
  rcases within with same | descends
  · exact absurd same apart
  · exact (tree.descends_iff pos inside).mp descends

theorem within_of_owner (pos : 0 < node) (inside : node < tree.size)
    (within : tree.Within (tree.node node).owner top) : tree.Within node top :=
  .inr ((tree.descends_iff pos inside).mpr within)

theorem depth_of_within (within : tree.Within node top) :
    (tree.node top).depth ≤ (tree.node node).depth := by
  rcases within with rfl | descends
  · exact Nat.le_refl _
  · exact Nat.le_of_lt (tree.depth_of_descends descends)

theorem le_of_within (within : tree.Within node top) : top ≤ node := by
  rcases within with rfl | descends
  · exact Nat.le_refl _
  · induction descends with
    | single owned =>
      obtain ⟨pos, inside, rfl⟩ := owned
      exact Nat.le_of_lt (tree.owner_lt _ inside pos)
    | tail _ owned ih =>
      obtain ⟨pos, inside, rfl⟩ := owned
      exact Nat.le_trans (Nat.le_of_lt (tree.owner_lt _ inside pos)) ih

theorem within_trans {middle : Nat} (first : tree.Within node middle)
    (second : tree.Within middle top) : tree.Within node top := by
  rcases first with rfl | below
  · exact second
  · rcases second with rfl | above
    · exact .inr below
    · exact .inr (below.trans above)

theorem within_child {owner : Nat} {state : E.Ident}
    (owned : tree.child owner state = some node) : tree.Within node owner := by
  obtain ⟨⟨pos, inside⟩, above, _⟩ := tree.child_spec owned
  exact .inr (.single ⟨pos, inside, above⟩)

/-- The children of a table lie on one level. -/
theorem depth_child {owner : Nat} {state : E.Ident}
    (owned : tree.child owner state = some node) :
    (tree.node node).depth = (tree.node owner).depth + 1 := by
  obtain ⟨⟨pos, inside⟩, above, _⟩ := tree.child_spec owned
  exact tree.depth_of_owned ⟨pos, inside, above⟩

/-- A table lies under one table of each depth. -/
theorem within_unique {other : Nat} (first : tree.Within node top)
    (second : tree.Within node other)
    (level : (tree.node top).depth = (tree.node other).depth) : top = other := by
  rcases first with rfl | descends
  · rcases second with same | below
    · exact same
    · have deeper := tree.depth_of_descends below
      omega
  · induction descends using Relation.TransGen.head_induction_on with
    | single owned =>
      rename_i below
      have deeper := tree.depth_of_owned owned
      obtain ⟨pos, inside, rfl⟩ := owned
      have apart : below ≠ other := by
        rintro rfl
        omega
      rcases tree.within_owner pos inside apart second with same | further
      · exact same
      · have above := tree.depth_of_descends further
        omega
    | head owned further ih =>
      rename_i below middle
      have deeper := tree.depth_of_owned owned
      have deepest := tree.depth_of_descends further
      obtain ⟨pos, inside, rfl⟩ := owned
      have apart : below ≠ other := by
        rintro rfl
        omega
      exact ih (tree.within_owner pos inside apart second)

/-! ### One slot for each state -/

theorem Parted.apart {blank : E.Ident} {rows : List (StarredRow E)} {table : Table E}
    (generated : Generated blank rows table) :
    table.regions.Pairwise fun first second =>
      ∀ state ∈ first.states, state ∉ second.states :=
  (discovered_regions generated.discovered).2.2

/-- No two slots of a table are in the state of one child. -/
theorem Parted.alone (parted : tree.Parted) (seated : tree.Seated core)
    {first second : Slot} (same : first.node = second.node)
    (placed : tree.Placed first) (placed' : tree.Placed second)
    (one : tree.child first.node (core.view.state first).ident = some node)
    (other : tree.child second.node (core.view.state second).ident = some node) :
    first = second := by
  obtain ⟨owner, region⟩ := first
  obtain ⟨_, region'⟩ := second
  obtain rfl : owner = _ := same
  obtain ⟨inside, below⟩ := placed
  obtain ⟨_, below'⟩ := placed'
  dsimp only at inside below below' one other
  cases orthogonal : (tree.node owner).orthogonal with
  | false =>
    simp only [Table.orthogonal, decide_eq_false_iff_not, not_lt] at orthogonal
    congr 1
    omega
  | true =>
    obtain ⟨blank, rows, generated⟩ := parted.regions owner inside orthogonal
    have held := seated owner inside orthogonal region _
      (List.getElem?_eq_getElem below)
    have held' := seated owner inside orthogonal region' _
      (List.getElem?_eq_getElem below')
    have alike : (core.view.state ⟨owner, region⟩).ident =
        (core.view.state ⟨owner, region'⟩).ident :=
      (tree.child_spec one).2.2.symm.trans (tree.child_spec other).2.2
    have named : (core.view.state ⟨owner, region⟩).ident ≠ E.X := by
      intro terminal
      rw [terminal, parted.terminal] at one
      cases one
    have first := held.resolve_left named
    have second := held'.resolve_left (alike ▸ named)
    rw [← alike] at second
    have pairs := List.pairwise_iff_getElem.mp (Parted.apart generated)
    rcases Nat.lt_trichotomy region region' with before | rfl | behind
    · exact absurd second (pairs _ _ below below' before _ first)
    · rfl
    · exact absurd first (pairs _ _ below' below behind _ second)

/-! ### Live slots -/

theorem nests_below (nests : tree.Nests view outer inner) :
    outer.node < inner.node ∧ inner.node < tree.size ∧
      (tree.node inner.node).owner = outer.node := by
  obtain ⟨⟨_, inside⟩, owner, _⟩ := tree.child_spec nests.1
  exact ⟨tree.owner_lt_child nests.1, inside, owner⟩

theorem live_placed (live : tree.Live view place) : tree.Placed place := by
  cases live with
  | root among =>
    obtain ⟨here, region⟩ := Tables.mem_slots.mp among
    exact ⟨here ▸ tree.size_pos, here ▸ region⟩
  | nested _ _ nests =>
    exact ⟨(nests_below nests).2.1, (Tables.mem_slots.mp nests.2).2⟩

/-- A live slot under a table is live by a slot that is in the state of the table
and has its token not set. -/
theorem live_passes (pos : 0 < top) (live : tree.Live view place)
    (within : tree.Within place.node top) :
    ∃ outer, tree.Live view outer ∧ view.exit_skip outer = false ∧
      tree.child outer.node (view.state outer).ident = some top := by
  induction live with
  | root among =>
    obtain ⟨here, _⟩ := Tables.mem_slots.mp among
    rcases within with same | descends
    · omega
    · obtain ⟨_, owned, _⟩ := Relation.TransGen.head'_iff.mp descends
      have above := owned.1
      omega
  | @nested outer inner above free nests ih =>
    obtain ⟨lower, inside, owner⟩ := nests_below nests
    by_cases same : inner.node = top
    · exact ⟨outer, above, free, same ▸ nests.1⟩
    · apply ih
      rw [← owner]
      exact tree.within_owner (by omega) inside same within

/-- Whether a slot is live depends on the tables in front of its own. -/
theorem live_congr {view' : View E} (live : tree.Live view place)
    (same : ∀ other, other.node < place.node →
      view'.state other = view.state other ∧
        view'.exit_skip other = view.exit_skip other) : tree.Live view' place := by
  induction live with
  | root among => exact .root among
  | @nested outer inner above free nests ih =>
    have lower := (nests_below nests).1
    have here := same outer lower
    apply Tables.Live.nested
    · exact ih fun other below => same other (by omega)
    · rw [here.2]
      exact free
    · refine ⟨?_, nests.2⟩
      rw [here.1]
      exact nests.1

theorem live_of_lives {depth : Nat} (lives : tree.lives view depth place = true) :
    tree.Live view place := by
  induction depth generalizing place with
  | zero => exact .root (List.contains_iff_mem.mp lives)
  | succ depth ih =>
    simp only [Tables.lives, Bool.or_eq_true, Bool.and_eq_true, List.any_eq_true,
      List.contains_iff_mem, Bool.not_eq_true', decide_eq_true_eq] at lives
    rcases lives with among | ⟨among, outer, _, ⟨above, free⟩, owned⟩
    · exact .root among
    · exact .nested (ih above) free ⟨owned, among⟩

theorem lives_of_live {depth : Nat} (live : tree.Live view place)
    (deep : place.node ≤ depth) : tree.lives view depth place = true := by
  induction depth generalizing place with
  | zero =>
    cases live with
    | root among => exact List.contains_iff_mem.mpr among
    | nested _ _ nests =>
      have lower := (nests_below nests).1
      omega
  | succ depth ih =>
    simp only [Tables.lives, Bool.or_eq_true, Bool.and_eq_true, List.any_eq_true,
      List.contains_iff_mem, Bool.not_eq_true', decide_eq_true_eq]
    cases live with
    | root among => exact .inl among
    | @nested outer _ above free nests =>
      obtain ⟨lower, _, owner⟩ := nests_below nests
      have region := (live_placed above).2
      have among : outer ∈ tree.slots (tree.node place.node).owner :=
        Tables.mem_slots.mpr ⟨owner.symm, owner ▸ region⟩
      exact .inr ⟨nests.2, outer, among, ⟨ih above (by omega), free⟩, nests.1⟩

instance decidable_live : Decidable (tree.Live view place) :=
  decidable_of_iff (tree.lives view place.node place = true)
    ⟨live_of_lives, fun live => lives_of_live live (Nat.le_refl _)⟩

end Tree

end SmlRs.Macros
