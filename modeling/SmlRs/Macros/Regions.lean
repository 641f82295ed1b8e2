/-
Module: SmlRs.Macros.Regions
Purpose: How the regions of an orthogonal table are found from its rows.
Trusted boundary: none
Main exports: StarredRow, discover_regions, row_graph, Partitions,
  discover_regions_iff, discovered_regions
-/
import Mathlib.Combinatorics.SimpleGraph.Connectivity.Connected
import Mathlib.Data.List.AList
import SmlRs.Lib.Frontier
import SmlRs.Macros.Table

namespace SmlRs.Macros

open Lib

variable {E : Environment}

/-- A row as it is parsed: whether its source is starred, and whether it is `_`. -/
structure StarredRow (E : Environment) extends StateTransition E where
  start : Bool := false
  wildcard : Bool := false

/-- Why a table has no regions. -/
inductive RegionError (E : Environment) where
  /-- "orthogonal regions overlap at state `{state}`" -/
  | overlap (state : E.Ident)
  /-- "state `{state}` is not connected to an orthogonal initial state" -/
  | unconnected (state : E.Ident)

/-! ### The search -/

/-- The states next to each state. -/
abbrev Adjacency (E : Environment) := AList fun _ : E.Ident => List E.Ident

namespace Adjacency

variable (adjacency : Adjacency E)

def next (state : E.Ident) : List E.Ident :=
  (adjacency.lookup state).getD []

/-- `adjacency.entry(state).or_default()`, with some states pushed behind. -/
def push (state : E.Ident) (further : List E.Ident) : Adjacency E :=
  adjacency.insert state (adjacency.next state ++ further)

/-- A turn of the loop over the rows. -/
def add_row (row : StarredRow E) : Adjacency E :=
  if row.wildcard then adjacency
  else
    let source := row.in_state.ident
    let target := row.out_state.ident
    let adjacency := adjacency.push source []
    if !row.internal_transition && target ≠ E.X then
      (adjacency.push source [target]).push target [source]
    else adjacency

/-- The loop over the queue of a region. -/
def claim (index : Nat) :
    List E.Ident → (E.Ident → Option Nat) → List E.Ident →
      Except (RegionError E) ((E.Ident → Option Nat) × List E.Ident)
  | [], claimed, states => .ok (claimed, states)
  | state :: queue, claimed, states =>
      match _owned : claimed state with
      | some owner =>
          if owner ≠ index then .error (.overlap state)
          else claim index queue claimed states
      | none =>
          claim index (queue ++ adjacency.next state)
            (Function.update claimed state (some index)) (states.insert state)
termination_by queue claimed _ =>
  (unseen adjacency.keys fun state => (claimed state).isSome, queue.length)
decreasing_by
  · exact Prod.Lex.right _ (Nat.lt_succ_self _)
  · have visits (other : E.Ident) :
        (Function.update claimed state (some index) other).isSome =
          (other = state || (claimed other).isSome) := by
      by_cases same : other = state <;> simp [same]
    by_cases among : state ∈ adjacency
    · apply Prod.Lex.left
      exact unseen_visit (AList.mem_keys.mp among) (by rw [_owned]; rfl) visits
    · have alone : adjacency.next state = [] := by
        unfold next
        rw [AList.lookup_eq_none.mpr among]
        rfl
      rw [alone, List.append_nil,
        unseen_other (fun listed => among (AList.mem_keys.mpr listed)) visits]
      exact Prod.Lex.right _ (Nat.lt_succ_self _)

/-- The loop over the initial states. -/
def claim_regions :
    Nat → List E.Ident → (E.Ident → Option Nat) →
      Except (RegionError E) ((E.Ident → Option Nat) × List (Region E))
  | _, [], claimed => .ok (claimed, [])
  | index, initial :: rest, claimed => do
      let (claimed, states) ← adjacency.claim index [initial] claimed []
      let (claimed, regions) ← claim_regions (index + 1) rest claimed
      pure (claimed, ⟨initial, states⟩ :: regions)

end Adjacency

/-- The sources of the starred rows. -/
def initials (rows : List (StarredRow E)) : List E.Ident :=
  (rows.filter (·.start)).map (·.in_state.ident)

def adjacency (rows : List (StarredRow E)) : Adjacency E :=
  rows.foldl Adjacency.add_row ∅

/-- `discover_regions`. -/
def discover_regions (rows : List (StarredRow E)) :
    Except (RegionError E) (List (Region E)) := do
  let adjacency := adjacency rows
  let (claimed, regions) ←
    adjacency.claim_regions 0 (initials rows) fun _ => none
  match adjacency.keys.find? fun state => (claimed state).isNone with
  | some state => .error (.unconnected state)
  | none => .ok regions

/-! ### The graph of the rows -/

/-- A row leads from one state to another, neither from `_` nor into `X`. -/
def StarredRow.joins (row : StarredRow E) (source target : E.Ident) : Prop :=
  row.wildcard = false ∧ row.internal_transition = false ∧
    row.out_state.ident ≠ E.X ∧ row.in_state.ident = source ∧
      row.out_state.ident = target

/-- The undirected graph of the rows of a table. -/
def row_graph (rows : List (StarredRow E)) : SimpleGraph E.Ident :=
  SimpleGraph.fromRel fun source target => ∃ row ∈ rows, row.joins source target

/-- The vertices of the graph: the sources of rows, and what the rows join. -/
def vertex (rows : List (StarredRow E)) (state : E.Ident) : Prop :=
  (∃ row ∈ rows, row.wildcard = false ∧ row.in_state.ident = state) ∨
    (∃ row ∈ rows, ∃ source, row.joins source state) ∨
    ∃ row ∈ rows, row.start = true ∧ row.in_state.ident = state

/-- Every component of the graph that has a vertex has exactly one starred row. -/
def Partitions (rows : List (StarredRow E)) : Prop :=
  ∀ component : (row_graph rows).ConnectedComponent,
    (∃ state, vertex rows state ∧ state ∈ component.supp) →
      ∃! index : Fin (rows.filter (·.start)).length,
        ((rows.filter (·.start)).get index).in_state.ident ∈ component.supp

/-! ### What is next in the adjacency -/

section Adjacency

variable {adjacency : Adjacency E} {row : StarredRow E} {rows : List (StarredRow E)}
  {state other : E.Ident}

theorem Adjacency.mem_push {further : List E.Ident} {at_state : E.Ident} :
    other ∈ (adjacency.push at_state further).next state ↔
      other ∈ adjacency.next state ∨ state = at_state ∧ other ∈ further := by
  unfold Adjacency.push
  by_cases same : state = at_state
  · subst same
    conv_lhs => unfold Adjacency.next
    rw [AList.lookup_insert, Option.getD_some, List.mem_append, eq_self, true_and]
    rfl
  · conv_lhs => unfold Adjacency.next
    rw [AList.lookup_insert_ne same]
    simp [same, Adjacency.next]

theorem Adjacency.push_keys {further : List E.Ident} {at_state : E.Ident} :
    state ∈ adjacency.push at_state further ↔ state = at_state ∨ state ∈ adjacency :=
  AList.mem_insert _

/-- A row joins two states, in one direction or the other. -/
def StarredRow.links (row : StarredRow E) (first second : E.Ident) : Prop :=
  row.joins first second ∨ row.joins second first

theorem Adjacency.mem_add_row :
    other ∈ (adjacency.add_row row).next state ↔
      other ∈ adjacency.next state ∨ row.links state other := by
  unfold Adjacency.add_row StarredRow.links StarredRow.joins
  dsimp only
  cases row.wildcard with
  | true => simp
  | false =>
    simp only [Bool.false_eq_true, if_false]
    split
    · rename_i external
      simp only [Bool.and_eq_true, Bool.not_eq_true', decide_eq_true_eq] at external
      simp only [Adjacency.mem_push, external, List.mem_singleton, List.not_mem_nil,
        and_false, or_false, true_and, ne_eq, not_false_eq_true]
      tauto
    · rename_i internal
      simp only [Bool.and_eq_true, Bool.not_eq_true', decide_eq_true_eq] at internal
      simp only [Adjacency.mem_push, List.not_mem_nil, and_false, or_false]
      tauto

theorem Adjacency.add_row_keys :
    state ∈ adjacency.add_row row ↔
      state ∈ adjacency ∨ (row.wildcard = false ∧ row.in_state.ident = state) ∨
        ∃ source, row.joins source state := by
  unfold Adjacency.add_row StarredRow.joins
  dsimp only
  cases row.wildcard with
  | true => simp
  | false =>
    simp only [Bool.false_eq_true, if_false]
    split
    · rename_i external
      simp only [Bool.and_eq_true, Bool.not_eq_true', decide_eq_true_eq] at external
      simp only [Adjacency.push_keys, external]
      simp
      tauto
    · rename_i internal
      simp only [Bool.and_eq_true, Bool.not_eq_true', decide_eq_true_eq] at internal
      simp only [Adjacency.push_keys]
      simp
      tauto

theorem mem_adjacency :
    other ∈ (Macros.adjacency rows).next state ↔
      ∃ row ∈ rows, row.links state other := by
  have further (adjacency : Adjacency E) :
      other ∈ (rows.foldl Adjacency.add_row adjacency).next state ↔
        other ∈ adjacency.next state ∨ ∃ row ∈ rows, row.links state other := by
    induction rows generalizing adjacency with
    | nil => simp
    | cons row rest ih =>
      rw [List.foldl_cons, ih, Adjacency.mem_add_row, or_assoc,
        List.exists_mem_cons_iff]
  have begun := further ∅
  have bare : other ∉ (∅ : Adjacency E).next state := by
    simp [Adjacency.next, AList.lookup_empty]
  rw [or_iff_right bare] at begun
  exact begun

theorem adjacency_keys :
    state ∈ Macros.adjacency rows ↔
      ∃ row ∈ rows, (row.wildcard = false ∧ row.in_state.ident = state) ∨
        ∃ source, row.joins source state := by
  have further (adjacency : Adjacency E) :
      state ∈ rows.foldl Adjacency.add_row adjacency ↔
        state ∈ adjacency ∨ ∃ row ∈ rows,
          (row.wildcard = false ∧ row.in_state.ident = state) ∨
            ∃ source, row.joins source state := by
    induction rows generalizing adjacency with
    | nil => simp
    | cons row rest ih =>
      rw [List.foldl_cons, ih, Adjacency.add_row_keys, or_assoc,
        List.exists_mem_cons_iff]
  have begun := further ∅
  rw [or_iff_right (AList.notMem_empty state)] at begun
  exact begun

end Adjacency

/-! ### One region -/

section Claim

variable {adjacency : Adjacency E} {index : Nat} {initial : E.Ident}
  {state : E.Ident} {queue states states' : List E.Ident}
  {claimed claimed' : E.Ident → Option Nat}

theorem claim_own (owned : claimed state = some index) :
    adjacency.claim index (state :: queue) claimed states =
      adjacency.claim index queue claimed states := by
  rw [Adjacency.claim]
  split
  · rename_i owner held
    have same : owner = index := Option.some.inj (held.symm.trans owned)
    rw [if_neg (not_not_intro same)]
  · rename_i free
    cases free.symm.trans owned

theorem claim_foreign {owner : Nat} (owned : claimed state = some owner)
    (foreign : owner ≠ index) :
    adjacency.claim index (state :: queue) claimed states =
      .error (.overlap state) := by
  rw [Adjacency.claim]
  split
  · rename_i other held
    have same : other = owner := Option.some.inj (held.symm.trans owned)
    rw [same, if_pos foreign]
  · rename_i free
    cases free.symm.trans owned

theorem claim_open (free : claimed state = none) :
    adjacency.claim index (state :: queue) claimed states =
      adjacency.claim index (queue ++ adjacency.next state)
        (Function.update claimed state (some index)) (states.insert state) := by
  rw [Adjacency.claim]
  split
  · rename_i other held
    cases held.symm.trans free
  · rfl

/-- The region claims a state of its queue. -/
theorem own_visit (own : ∀ state, claimed state = some index ↔ state ∈ states)
    (visited : E.Ident) (other : E.Ident) :
    Function.update claimed visited (some index) other = some index ↔
      other ∈ states.insert visited := by
  rw [List.mem_insert_iff]
  by_cases same : other = visited
  · simp [same]
  · simp [same, own]

theorem frontier_visit
    (frontier : Frontier adjacency.next [initial] {state | state ∈ states}
      (state :: queue)) :
    Frontier adjacency.next [initial] {other | other ∈ states.insert state}
      (queue ++ adjacency.next state) := by
  have visited := frontier.visit
  have same : insert state {other | other ∈ states} =
      {other | other ∈ states.insert state} := by
    ext other
    simp
  rwa [same] at visited

/-- A region that is found has claimed what its initial state leads to, and
nothing of it was claimed before. -/
theorem claim_ok (own : ∀ state, claimed state = some index ↔ state ∈ states)
    (frontier : Frontier adjacency.next [initial] {state | state ∈ states} queue)
    (run : adjacency.claim index queue claimed states = .ok (claimed', states')) :
    (∀ state, state ∈ states' ↔ Leads adjacency.next initial state) ∧
      (∀ state, claimed' state =
        if state ∈ states' then some index else claimed state) ∧
      ∀ state ∈ states', claimed state = none ∨ claimed state = some index := by
  induction queue, claimed, states using Adjacency.claim.induct adjacency index with
  | case1 claimed states =>
    unfold Adjacency.claim at run
    cases run
    refine ⟨fun state => ?_, fun state => ?_, fun state among => ?_⟩
    · have visited := @frontier.visited_iff _ _ _ _ state
      simpa using visited
    · split
      · rename_i among
        exact (own state).mpr among
      · rfl
    · exact .inr ((own state).mpr among)
  | case2 state queue claimed states owner owned foreign =>
    rw [claim_foreign owned foreign] at run
    cases run
  | case3 state queue claimed states owner owned same ih =>
    have mine : claimed state = some index := by
      rw [owned, not_not.mp same]
    rw [claim_own mine] at run
    exact ih own (frontier.skip ((own state).mp mine)) run
  | case4 state queue claimed states free ih =>
    rw [claim_open free] at run
    obtain ⟨reached, after, before⟩ := ih (own_visit own state)
      (frontier_visit frontier) run
    have claims : state ∈ states' := by
      obtain ⟨start, among, leads⟩ := frontier.waits state List.mem_cons_self
      rw [List.mem_singleton.mp among] at leads
      exact (reached state).mpr leads
    refine ⟨reached, fun other => ?_, fun other among => ?_⟩
    · rw [after other]
      by_cases same : other = state
      · rw [same, if_pos claims, if_pos claims]
      · rw [Function.update_of_ne same]
    · by_cases same : other = state
      · exact .inl (same ▸ free)
      · have kept := before other among
        rwa [Function.update_of_ne same] at kept

/-- A region that is not found leads to a state of another one. -/
theorem claim_error {error : RegionError E}
    (own : ∀ state, claimed state = some index ↔ state ∈ states)
    (frontier : Frontier adjacency.next [initial] {state | state ∈ states} queue)
    (run : adjacency.claim index queue claimed states = .error error) :
    ∃ state owner, Leads adjacency.next initial state ∧
      claimed state = some owner ∧ owner ≠ index := by
  induction queue, claimed, states using Adjacency.claim.induct adjacency index with
  | case1 claimed states =>
    unfold Adjacency.claim at run
    cases run
  | case2 state queue claimed states owner owned foreign =>
    obtain ⟨start, among, leads⟩ := frontier.waits state List.mem_cons_self
    rw [List.mem_singleton.mp among] at leads
    exact ⟨state, owner, leads, owned, foreign⟩
  | case3 state queue claimed states owner owned same ih =>
    have mine : claimed state = some index := by
      rw [owned, not_not.mp same]
    rw [claim_own mine] at run
    exact ih own (frontier.skip ((own state).mp mine)) run
  | case4 state queue claimed states free ih =>
    rw [claim_open free] at run
    obtain ⟨other, owner, leads, owned, foreign⟩ := ih (own_visit own state)
      (frontier_visit frontier) run
    by_cases same : other = state
    · subst same
      rw [Function.update_self] at owned
      exact absurd (Option.some.inj owned).symm foreign
    · rw [Function.update_of_ne same] at owned
      exact ⟨other, owner, leads, owned, foreign⟩

end Claim

/-! ### All regions -/

section Claims

variable {adjacency : Adjacency E}

/-- Some initial states have claimed what they lead to, each in the place of its
region. -/
def Claimed (adjacency : Adjacency E) (front : List E.Ident)
    (claimed : E.Ident → Option Nat) : Prop :=
  ∀ state index, claimed state = some index ↔
    ∃ initial, front[index]? = some initial ∧ Leads adjacency.next initial state

/-- A region holds what its initial state leads to. -/
def Region.Holds (adjacency : Adjacency E) (region : Region E) : Prop :=
  ∀ state, state ∈ region.states ↔ Leads adjacency.next region.initial state

/-- No state is reached from two of the initial states. -/
def Apart (adjacency : Adjacency E) (initials : List E.Ident) : Prop :=
  initials.Pairwise fun first second => ∀ state,
    Leads adjacency.next first state → ¬ Leads adjacency.next second state

section Claimed

variable {front rest : List E.Ident} {initial : E.Ident}
  {claimed claimed' : E.Ident → Option Nat} (before : Claimed adjacency front claimed)

include before

theorem Claimed.unclaimed (state : E.Ident) :
    claimed state = some front.length ↔ state ∈ ([] : List E.Ident) := by
  rw [before]
  simp

theorem Claimed.owner {state : E.Ident} {owner : Nat}
    (owned : claimed state = some owner) :
    ∃ first ∈ front, Leads adjacency.next first state := by
  obtain ⟨first, placed, leads⟩ := (before state owner).mp owned
  exact ⟨first, List.mem_of_getElem? placed, leads⟩

/-- The region of one more initial state. -/
theorem Claimed.claim {states : List E.Ident}
    (run : adjacency.claim front.length [initial] claimed [] =
      .ok (claimed', states)) :
    Claimed adjacency (front ++ [initial]) claimed' ∧
      Region.Holds adjacency ⟨initial, states⟩ ∧
      ∀ first ∈ front, ∀ state, Leads adjacency.next first state →
        ¬ Leads adjacency.next initial state := by
  have start : Frontier adjacency.next [initial]
      {state | state ∈ ([] : List E.Ident)} [initial] := by
    have same : {state | state ∈ ([] : List E.Ident)} = ∅ := by
      ext state
      simp
    exact same ▸ Frontier.start
  obtain ⟨reached, after, free⟩ := claim_ok before.unclaimed start run
  have apart : ∀ first ∈ front, ∀ state, Leads adjacency.next first state →
      ¬ Leads adjacency.next initial state := by
    intro first among state one other
    obtain ⟨owner, inside, rfl⟩ := List.getElem_of_mem among
    have owned : claimed state = some owner :=
      (before state owner).mpr ⟨_, List.getElem?_eq_getElem inside, one⟩
    rcases free state ((reached state).mpr other) with none_yet | mine
    · cases owned.symm.trans none_yet
    · have same : owner = front.length := Option.some.inj (owned.symm.trans mine)
      omega
  refine ⟨fun state owner => ?_, reached, apart⟩
  rw [after state]
  by_cases among : state ∈ states
  · have leads := (reached state).mp among
    rw [if_pos among]
    constructor
    · intro same
      cases same
      exact ⟨initial, List.getElem?_concat_length, leads⟩
    · intro owned
      obtain ⟨other, placed, reaches⟩ := owned
      rcases Nat.lt_trichotomy owner front.length with less | rfl | more
      · rw [List.getElem?_append_left less] at placed
        exact absurd leads (apart other (List.mem_of_getElem? placed) state reaches)
      · rfl
      · rw [List.getElem?_eq_none (by simp; omega)] at placed
        cases placed
  · rw [if_neg among, before]
    constructor
    · intro owned
      obtain ⟨other, placed, reaches⟩ := owned
      obtain ⟨inside, _⟩ := List.getElem?_eq_some_iff.mp placed
      exact ⟨other, by rw [List.getElem?_append_left inside, placed], reaches⟩
    · intro owned
      obtain ⟨other, placed, reaches⟩ := owned
      rcases Nat.lt_trichotomy owner front.length with less | rfl | more
      · rw [List.getElem?_append_left less] at placed
        exact ⟨other, placed, reaches⟩
      · rw [List.getElem?_concat_length] at placed
        cases placed
        exact absurd ((reached state).mpr reaches) among
      · rw [List.getElem?_eq_none (by simp; omega)] at placed
        cases placed

/-- A region that is not found meets one in front. -/
theorem Claimed.meets {error : RegionError E}
    (run : adjacency.claim front.length [initial] claimed [] = .error error) :
    ∃ first ∈ front, ∃ state, Leads adjacency.next first state ∧
      Leads adjacency.next initial state := by
  have start : Frontier adjacency.next [initial]
      {state | state ∈ ([] : List E.Ident)} [initial] := by
    have same : {state | state ∈ ([] : List E.Ident)} = ∅ := by
      ext state
      simp
    exact same ▸ Frontier.start
  obtain ⟨state, owner, leads, owned, _⟩ := claim_error before.unclaimed start run
  obtain ⟨first, among, reaches⟩ := before.owner owned
  exact ⟨first, among, state, reaches, leads⟩

end Claimed

theorem apart_snoc {front : List E.Ident} {initial : E.Ident}
    (apart : Apart adjacency front)
    (last : ∀ first ∈ front, ∀ state, Leads adjacency.next first state →
      ¬ Leads adjacency.next initial state) :
    Apart adjacency (front ++ [initial]) := by
  apply List.pairwise_append.mpr
  refine ⟨apart, List.pairwise_singleton _ _, fun first among other single => ?_⟩
  rw [List.mem_singleton.mp single]
  exact last first among

theorem claim_regions_cons {index : Nat} {initial : E.Ident} {rest states : List E.Ident}
    {claimed claimed' final : E.Ident → Option Nat} {regions : List (Region E)}
    (first : adjacency.claim index [initial] claimed [] = .ok (claimed', states))
    (others : adjacency.claim_regions (index + 1) rest claimed' =
      .ok (final, regions)) :
    adjacency.claim_regions index (initial :: rest) claimed =
      .ok (final, ⟨initial, states⟩ :: regions) := by
  unfold Adjacency.claim_regions
  simp only [bind, Except.bind, first, others]
  rfl

/-- The loop over the initial states comes to an end where they are apart. -/
theorem claim_regions_spec {front rest : List E.Ident}
    {claimed : E.Ident → Option Nat}
    (before : Claimed adjacency front claimed) (apart : Apart adjacency front) :
    (∀ claimed' regions,
      adjacency.claim_regions front.length rest claimed = .ok (claimed', regions) →
        Claimed adjacency (front ++ rest) claimed' ∧ Apart adjacency (front ++ rest) ∧
          regions.map (·.initial) = rest ∧
            ∀ region ∈ regions, region.Holds adjacency) ∧
      ∀ error, adjacency.claim_regions front.length rest claimed = .error error →
        ¬ Apart adjacency (front ++ rest) := by
  induction rest generalizing front claimed with
  | nil =>
    rw [List.append_nil]
    refine ⟨fun claimed' regions run => ?_, fun error run => ?_⟩
    · cases run
      exact ⟨before, apart, rfl, by simp⟩
    · cases run
  | cons initial rest ih =>
    unfold Adjacency.claim_regions
    cases first : adjacency.claim front.length [initial] claimed [] with
    | error error =>
      refine ⟨fun claimed' regions run => (by cases run), fun _ _ all => ?_⟩
      obtain ⟨other, among, state, one, both⟩ := before.meets first
      exact (List.pairwise_append.mp all).2.2 other among initial
        List.mem_cons_self state one both
    | ok found =>
      obtain ⟨mid, states⟩ := found
      obtain ⟨claims, holds, last⟩ := before.claim first
      obtain ⟨accepts, rejects⟩ := ih claims (apart_snoc apart last)
      rw [List.length_append, List.length_singleton, List.append_assoc,
        List.singleton_append] at accepts rejects
      cases others : adjacency.claim_regions (front.length + 1) rest mid with
      | error error =>
        refine ⟨fun claimed' regions run => ?_, fun _ _ => rejects error others⟩
        simp only [bind, Except.bind, others] at run
        cases run
      | ok further =>
        obtain ⟨final, regions⟩ := further
        obtain ⟨all, apart', names, each⟩ := accepts final regions others
        have both := claim_regions_cons first others
        unfold Adjacency.claim_regions at both
        rw [first] at both
        refine ⟨fun claimed' found run => ?_, fun error run => ?_⟩
        · cases both.symm.trans run
          refine ⟨all, apart', by rw [List.map_cons, names], ?_⟩
          intro region among
          rcases List.mem_cons.mp among with rfl | among
          · exact holds
          · exact each region among
        · cases both.symm.trans run

end Claims

/-! ### The regions of a table -/

section Discover

variable {rows : List (StarredRow E)} {regions : List (Region E)}
  {first second state : E.Ident}

theorem next_symm (step : second ∈ (adjacency rows).next first) :
    first ∈ (adjacency rows).next second := by
  obtain ⟨row, among, links⟩ := mem_adjacency.mp step
  exact mem_adjacency.mpr ⟨row, among, Or.symm links⟩

/-- The search goes along the edges of the graph. -/
theorem leads_iff_reachable :
    Leads (adjacency rows).next first second ↔
      (row_graph rows).Reachable first second := by
  rw [SimpleGraph.reachable_iff_reflTransGen]
  constructor
  · intro leads
    induction leads with
    | refl => exact .refl
    | @tail middle last _ step ih =>
      by_cases same : middle = last
      · exact same ▸ ih
      · obtain ⟨row, among, links⟩ := mem_adjacency.mp step
        apply ih.tail
        rcases links with joins | joins
        · exact ⟨same, .inl ⟨row, among, joins⟩⟩
        · exact ⟨same, .inr ⟨row, among, joins⟩⟩
  · intro reaches
    induction reaches with
    | refl => exact .refl
    | tail _ edge ih =>
      apply ih.tail
      obtain ⟨_, forward | backward⟩ := edge
      · obtain ⟨row, among, joins⟩ := forward
        exact mem_adjacency.mpr ⟨row, among, .inl joins⟩
      · obtain ⟨row, among, joins⟩ := backward
        exact mem_adjacency.mpr ⟨row, among, .inr joins⟩

theorem mem_component :
    second ∈ ((row_graph rows).connectedComponentMk first).supp ↔
      Leads (adjacency rows).next first second := by
  rw [SimpleGraph.ConnectedComponent.mem_supp_iff, SimpleGraph.ConnectedComponent.eq,
    leads_iff_reachable]
  exact ⟨fun reaches => reaches.symm, fun reaches => reaches.symm⟩

/-- Every source and target in the adjacency is reached from an initial state. -/
def Covered (rows : List (StarredRow E)) : Prop :=
  ∀ state ∈ adjacency rows,
    ∃ initial ∈ initials rows, Leads (adjacency rows).next initial state

/-- The search succeeds where the initial states are apart and cover the rows. -/
theorem discover_spec :
    (∀ regions, discover_regions rows = .ok regions →
      (Apart (adjacency rows) (initials rows) ∧ Covered rows) ∧
        regions.map (·.initial) = initials rows ∧
          ∀ region ∈ regions, region.Holds (adjacency rows)) ∧
      ∀ error, discover_regions rows = .error error →
        ¬ (Apart (adjacency rows) (initials rows) ∧ Covered rows) := by
  have none_yet : Claimed (adjacency rows) [] fun _ => none := by
    intro state index
    simp
  obtain ⟨accepts, rejects⟩ := @claim_regions_spec _ (adjacency rows) []
    (initials rows) _ none_yet List.Pairwise.nil
  rw [List.length_nil, List.nil_append] at accepts rejects
  unfold discover_regions
  dsimp only
  cases run : (adjacency rows).claim_regions 0 (initials rows) fun _ => none with
  | error error =>
    refine ⟨fun regions ends => (by cases ends), fun _ _ both => ?_⟩
    exact rejects error run both.1
  | ok found =>
    obtain ⟨claimed, regions⟩ := found
    obtain ⟨claims, apart, names, each⟩ := accepts claimed regions run
    cases free : (adjacency rows).keys.find? fun state => (claimed state).isNone with
    | some state =>
      have unowned : claimed state = none := by
        simpa using List.find?_some free
      have key : state ∈ adjacency rows :=
        AList.mem_keys.mpr (List.mem_of_find?_eq_some free)
      refine ⟨fun regions ends => ?_, fun _ _ both => ?_⟩
      · simp only [bind, Except.bind, free] at ends
        cases ends
      · obtain ⟨initial, among, leads⟩ := both.2 state key
        obtain ⟨owner, inside, rfl⟩ := List.getElem_of_mem among
        have owned := (claims state owner).mpr
          ⟨_, List.getElem?_eq_getElem inside, leads⟩
        cases unowned.symm.trans owned
    | none =>
      have covered : Covered rows := by
        intro state key
        have owned := List.find?_eq_none.mp free state (AList.mem_keys.mp key)
        cases owns : claimed state with
        | none =>
          rw [owns] at owned
          exact absurd rfl owned
        | some owner => exact claims.owner owns
      refine ⟨fun found ends => ?_, fun _ ends => ?_⟩
      · simp only [bind, Except.bind, free] at ends
        cases ends
        exact ⟨⟨apart, covered⟩, names, each⟩
      · simp only [bind, Except.bind, free] at ends
        cases ends

/-- The starred sources and what is in the adjacency are the vertices. -/
theorem vertex_iff :
    vertex rows state ↔ state ∈ adjacency rows ∨ state ∈ initials rows := by
  unfold vertex initials
  rw [adjacency_keys]
  simp only [List.mem_map, List.mem_filter]
  constructor
  · intro known
    rcases known with ⟨row, among, own⟩ | ⟨row, among, joined⟩ | ⟨row, among, start, own⟩
    · exact .inl ⟨row, among, .inl own⟩
    · exact .inl ⟨row, among, .inr joined⟩
    · exact .inr ⟨row, ⟨among, start⟩, own⟩
  · intro known
    rcases known with ⟨row, among, own | joined⟩ | ⟨row, ⟨among, start⟩, own⟩
    · exact .inl ⟨row, among, own⟩
    · exact .inr (.inl ⟨row, among, joined⟩)
    · exact .inr (.inr ⟨row, among, start, own⟩)

/-- The starred row of an initial state. -/
theorem mem_initials :
    state ∈ initials rows ↔ ∃ index : Fin (rows.filter (·.start)).length,
      ((rows.filter (·.start)).get index).in_state.ident = state := by
  unfold initials
  rw [List.mem_map]
  constructor
  · intro starred
    obtain ⟨row, among, rfl⟩ := starred
    obtain ⟨index, rfl⟩ := List.mem_iff_get.mp among
    exact ⟨index, rfl⟩
  · intro starred
    obtain ⟨index, rfl⟩ := starred
    exact ⟨_, List.get_mem _ index, rfl⟩

/-- The starred rows of two places lead nowhere together. -/
theorem apart_iff :
    Apart (adjacency rows) (initials rows) ↔
      ∀ first second : Fin (rows.filter (·.start)).length, first < second →
        ∀ state, Leads (adjacency rows).next
            ((rows.filter (·.start)).get first).in_state.ident state →
          ¬ Leads (adjacency rows).next
            ((rows.filter (·.start)).get second).in_state.ident state := by
  unfold Apart initials
  rw [List.pairwise_map, List.pairwise_iff_get]

theorem partitions_iff :
    Partitions rows ↔ Apart (adjacency rows) (initials rows) ∧ Covered rows := by
  constructor
  · intro partitions
    constructor
    · apply apart_iff.mpr
      intro first second less state one other
      have listed : ((rows.filter (·.start)).get first).in_state.ident ∈
          initials rows := mem_initials.mpr ⟨first, rfl⟩
      have same := (partitions ((row_graph rows).connectedComponentMk state)
        ⟨_, vertex_iff.mpr (.inr listed),
          mem_component.mpr (leads_symm next_symm one)⟩).unique
        (mem_component.mpr (leads_symm next_symm one))
        (mem_component.mpr (leads_symm next_symm other))
      exact absurd (same ▸ less) (lt_irrefl _)
    · intro state key
      obtain ⟨index, within, _⟩ := partitions
        ((row_graph rows).connectedComponentMk state)
        ⟨state, vertex_iff.mpr (.inl key), mem_component.mpr .refl⟩
      exact ⟨_, mem_initials.mpr ⟨index, rfl⟩,
        leads_symm next_symm (mem_component.mp within)⟩
  · intro both component known
    obtain ⟨apart, covered⟩ := both
    obtain ⟨state, known, within⟩ := known
    have same : (row_graph rows).connectedComponentMk state = component := within
    subst same
    have reached : ∃ initial ∈ initials rows,
        Leads (adjacency rows).next initial state := by
      rcases vertex_iff.mp known with key | starred
      · exact covered state key
      · exact ⟨state, starred, .refl⟩
    obtain ⟨initial, starred, leads⟩ := reached
    obtain ⟨index, rfl⟩ := mem_initials.mp starred
    refine ⟨index, mem_component.mpr (leads_symm next_symm leads), ?_⟩
    intro other inside
    have reaches := leads_symm next_symm (mem_component.mp inside)
    rcases lt_trichotomy other index with less | same | more
    · exact absurd leads (apart_iff.mp apart other index less state reaches)
    · exact same
    · exact absurd reaches (apart_iff.mp apart index other more state leads)

/-- A table has regions if and only if each component of its rows has exactly one
starred row. -/
theorem discover_regions_iff :
    (∃ regions, discover_regions rows = .ok regions) ↔ Partitions rows := by
  rw [partitions_iff]
  constructor
  · intro accepted
    obtain ⟨regions, found⟩ := accepted
    exact (discover_spec.1 regions found).1
  · intro both
    cases run : discover_regions rows with
    | error error => exact absurd both (discover_spec.2 error run)
    | ok regions => exact ⟨regions, rfl⟩

/-- The regions that are found are the components of the starred rows, one for each
and no two with a state in common. -/
theorem discovered_regions (found : discover_regions rows = .ok regions) :
    regions.map (·.initial) = initials rows ∧
      (∀ region ∈ regions, ∀ state, state ∈ region.states ↔
        state ∈ ((row_graph rows).connectedComponentMk region.initial).supp) ∧
      regions.Pairwise fun first second =>
        ∀ state ∈ first.states, state ∉ second.states := by
  obtain ⟨⟨apart, _⟩, names, each⟩ := discover_spec.1 regions found
  refine ⟨names, fun region among state => ?_, ?_⟩
  · rw [mem_component]
    exact each region among state
  · unfold Apart at apart
    rw [← names, List.pairwise_map] at apart
    apply apart.imp_of_mem
    intro first second one other distinct state inside outside
    exact distinct state ((each first one state).mp inside)
      ((each second other state).mp outside)

end Discover

end SmlRs.Macros
