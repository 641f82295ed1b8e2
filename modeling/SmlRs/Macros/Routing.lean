/-
Module: SmlRs.Macros.Routing
Purpose: Which tables and which rows an event reaches, in every run.
Trusted boundary: none
Main exports: Bubbles, Passes, bubbles_iff_passes, OneRow, Tight,
  one_row_iff_tight
-/
import SmlRs.Macros.Dispatch

namespace SmlRs.Macros

open Lib

variable {E : Environment}

namespace Tables

variable (tree : Tables E)

/-! ### Deepest first, with bubbling -/

/-- The turns of a dispatch come deepest first, and a row runs only if no table
nested in its region has handled the event before. -/
def Bubbles : Happening E → List (Happening E) → Prop
  | .turn serial _ place _, past =>
      ∀ earlier ∈ past, ∀ other, earlier.part = some (serial, other) →
        ¬ tree.Below place.node other
  | .fired (.event serial) place _ _ _, past =>
      ∀ other, .handled serial other ∈ past → ¬ tree.Below other.node place
  | _, _ => True

instance (node : Nat) (place : Slot) : Decidable (tree.Below node place) :=
  inferInstanceAs (Decidable (ite ..))

/-- The slots that have handled the event of a dispatch. -/
def handlers (serial : Nat) (past : List (Happening E)) : List Slot :=
  past.filterMap fun earlier =>
    match earlier with
    | .handled number other => if number = serial then some other else none
    | _ => none

theorem mem_handlers {serial : Nat} {past : List (Happening E)} {other : Slot} :
    other ∈ handlers serial past ↔ .handled serial other ∈ past := by
  unfold handlers
  rw [List.mem_filterMap]
  constructor
  · rintro ⟨earlier, among, same⟩
    split at same
    · split at same
      · cases same
        subst_vars
        exact among
      · cases same
    · cases same
  · intro among
    exact ⟨_, among, by simp⟩

instance (happening : Happening E) (past : List (Happening E)) :
    Decidable (tree.Bubbles happening past) :=
  match happening with
  | .turn serial _ place _ =>
      decidable_of_iff (∀ earlier ∈ past, ∀ part ∈ earlier.part,
        part.1 = serial → ¬ tree.Below place.node part.2) (by
          constructor
          · intro all earlier among other owned
            exact all earlier among (serial, other) owned rfl
          · rintro all earlier among ⟨number, other⟩ owned rfl
            exact all earlier among other owned)
  | .fired (.event serial) place _ _ _ =>
      decidable_of_iff (∀ other ∈ handlers serial past,
        ¬ tree.Below other.node place) (by simp [Bubbles, mem_handlers])
  | .fired .completion .. | .fired (.exception _) .. | .handled .. | .exited ..
  | .entered .. | .replaced .. | .reset .. | .log_state_change .. | .faulted ..
  | .recovered ..
  | .raised .. | .offered .. | .recovering .. | .surfaced .. | .unentered ..
  | .follow_up .. | .queued .. | .put .. | .put_off .. | .released ..
  | .requeued .. | .dequeued .. | .failed => inferInstanceAs (Decidable True)

/-- A scalar table between the root and a table that has handled the event has
no row whose condition is true when its turn comes. -/
def Passes : Happening E → List (Happening E) → Prop
  | .turn serial event place view, past =>
      ¬ tree.Watchful place →
        (∃ other, .handled serial other ∈ past ∧ tree.Below other.node place) →
          tree.picked place event view = none
  | _, _ => True

/-! ### One row for each table and event -/

/-- The first row of an arm that the policy accepts and whose whole declared
guard is true. -/
def declared (place : Slot) (matched event_data : E.Data) (view : View E) :
    List (StateTransition E × Nat) → Option (StateTransition E × Nat)
  | [] => none
  | item :: rest =>
      match tree.enabled place matched event_data view item with
      | .ok false => declared place matched event_data view rest
      | .ok true => some item
      | .error _ => none

/-- Whether a row of a turn has run before. -/
def fired_before (serial : Nat) (place : Slot) (past : List (Happening E)) :
    Bool :=
  past.any fun earlier =>
    match earlier with
    | .fired (.event number) other _ _ _ => number = serial && other = place
    | _ => false

/-- A normal row that runs is the only one of its turn so far. -/
def Alone : Happening E → List (Happening E) → Prop
  | .fired (.event serial) place row _ _, past =>
      row.event.kind = .normal → fired_before serial place past = false
  | _, _ => True

instance (happening : Happening E) (past : List (Happening E)) :
    Decidable (Alone happening past) :=
  match happening with
  | .fired (.event serial) place row _ _ =>
      inferInstanceAs (Decidable (row.event.kind = .normal →
        fired_before serial place past = false))
  | .fired .completion .. | .fired (.exception _) .. | .turn .. | .handled ..
  | .exited .. | .entered .. | .replaced .. | .reset .. | .log_state_change ..
  | .faulted .. | .recovered ..
  | .raised .. | .offered .. | .recovering .. | .surfaced .. | .unentered ..
  | .follow_up .. | .queued .. | .put .. | .put_off .. | .released ..
  | .requeued .. | .dequeued .. | .failed => inferInstanceAs (Decidable True)

/-- A normal row that runs is the only one of its turn, and the first one of its
arm that is enabled as it was declared. -/
def OneRow : Happening E → List (Happening E) → Prop
  | .fired (.event serial) place row index view, past =>
      row.event.kind = .normal →
        fired_before serial place past = false ∧
        ∃ event rest, past = .turn serial event place view :: rest ∧
          tree.declared place (view.state place).data event.data view
            (tree.arm place event view) = some (row, index)
  | _, _ => True

/-- A normal row does not run in a state where an alternative of its guard
behind the first one is true, if an earlier row of its turn has run or the policy
rejects it. -/
def Tight : Happening E → List (Happening E) → Prop
  | .fired (.event serial) place row index view, past =>
      row.event.kind = .normal →
        ∀ event start, .turn serial event place start ∈ past →
          ¬ tree.Leaks place (start.state place).data event.data view
            (row, index) (fired_before serial place past)
  | _, _ => True

section Routing

variable {tree}

/-- The turn a row belongs to, and the row that it picked. -/
theorem Sound.turn_of_fired {serial : Nat} {place : Slot}
    {row : StateTransition E} {index : Nat} {view : View E}
    {past : List (Happening E)}
    (sound : tree.Sound (.fired (.event serial) place row index view) past) :
    ∃ event start before rest, past = before ++ .turn serial event place start :: rest ∧
      tree.picked place event start ≠ none ∧
      ∀ other, Happening.handled serial other ∉ before := by
  rcases sound with ⟨event, rest, rfl, picks⟩ |
    ⟨event, start, first, between, rest, leaked⟩
  · exact ⟨event, view, [], rest, rfl, by simp [picks], by simp⟩
  · refine ⟨event, start, between ++ [.fired (.event serial) place first.1 first.2
      start], rest, by simp [leaked.past_eq], by simp [leaked.picks], ?_⟩
    intro other among
    rcases List.mem_append.mp among with inner | last
    · obtain ⟨_, _, _, differs⟩ := leaked.between_fired _ inner other rfl
      cases differs
    · simp at last

theorem mem_arm {place : Slot} {event : Event E} {view : View E}
    {item : StateTransition E × Nat} (among : item ∈ tree.arm place event view) :
    tree.matches_row place view item.1 = true := by
  have source := (mem_rows (mem_dispatch_arm among)).2
  simp [matches_row, source]

/-- A picked row that does not leak is the one that was declared. -/
theorem declared_of_pick {place : Slot} {matched event_data : E.Data}
    {view : View E} {arm : List (StateTransition E × Nat)}
    {item : StateTransition E × Nat}
    (matching : ∀ item ∈ arm, tree.matches_row place view item.1 = true)
    (picks : tree.pick place matched event_data view arm = some item)
    (tight : ¬ tree.Leaks place matched event_data view item false) :
    tree.declared place matched event_data view arm = some item := by
  induction arm with
  | nil => cases picks
  | cons head rest ih =>
    have matched_head := matching head (by simp)
    unfold pick at picks
    unfold declared
    cases checked : tree.branch_condition place matched event_data view head
      false with
    | error error =>
      rw [checked] at picks
      cases picks
    | ok value =>
      rw [checked] at picks
      cases value with
      | false =>
        have disabled : tree.enabled place matched event_data view head =
            .ok false := by
          rw [branch_condition, if_pos matched_head] at checked
          exact row_enabled_of_condition checked
        rw [disabled]
        exact ih (fun item among => matching item (by simp [among])) picks
      | true =>
        cases picks
        obtain ⟨_, ⟨_, enabled⟩ | leaks⟩ := runs_iff.mp checked
        · rw [enabled]
        · exact absurd leaks tight

theorem enabled_of_declared {place : Slot} {matched event_data : E.Data}
    {view : View E} {arm : List (StateTransition E × Nat)}
    {item : StateTransition E × Nat}
    (first : tree.declared place matched event_data view arm = some item) :
    tree.enabled place matched event_data view item = .ok true := by
  induction arm with
  | nil => cases first
  | cons head rest ih =>
    unfold declared at first
    split at first
    · exact ih first
    · rename_i enabled
      cases first
      exact enabled
    · cases first

theorem OneRow.alone {happening : Happening E} {past : List (Happening E)}
    (one_row : tree.OneRow happening past) : Alone happening past := by
  unfold OneRow at one_row
  unfold Alone
  split
  · exact fun normal => (one_row normal).1
  · trivial

/-- A row that is enabled as it was declared does not leak where no row of its
turn has run. -/
theorem tight_of_enabled {place : Slot} {matched event_data : E.Data}
    {view : View E} {item : StateTransition E × Nat}
    (enabled : tree.enabled place matched event_data view item = .ok true) :
    ¬ tree.Leaks place matched event_data view item false := by
  rintro ⟨_, set | rejected, _⟩
  · cases set
  · simp [Tables.enabled, row_enabled, rejected] at enabled

theorem fired_before_iff {serial : Nat} {place : Slot}
    {past : List (Happening E)} :
    fired_before serial place past = true ↔ ∃ row index view,
      Happening.fired (.event serial) place row index view ∈ past := by
  unfold fired_before
  rw [List.any_eq_true]
  constructor
  · rintro ⟨earlier, among, same⟩
    split at same
    · simp only [Bool.and_eq_true, decide_eq_true_eq] at same
      obtain ⟨rfl, rfl⟩ := same
      exact ⟨_, _, _, among⟩
    · cases same
  · rintro ⟨row, index, view, among⟩
    exact ⟨_, among, by simp⟩

end Routing

end Tables

/-- In every run, events bubble from the deepest tables up exactly when the
scalar tables in the middle have no row for an event handled below them. -/
theorem bubbles_iff_passes {tree : Tree E} {core : Core E}
    (reached : Reaches tree.toTables core) :
    Throughout tree.Bubbles core.trace ↔ Throughout tree.Passes core.trace := by
  have good := reached.good
  constructor
  · intro bubbles
    rw [throughout_iff]
    intro after happening past split
    cases happening with
    | turn serial event place view =>
      rintro _ ⟨other, handled, below⟩
      by_contra picks
      -- A turn that picks a row runs it at once.
      obtain ⟨front, answer, rfl, fires⟩ := good.answered.answer split picks
      have ran : core.trace =
          front ++ answer :: .turn serial event place view :: past := by
        simp [split]
      have fact := bubbles.at ran
      unfold Tables.Fires at fires
      split at fires
      · rename_i same
        cases same
        obtain ⟨rfl, rfl⟩ := fires
        exact fact other (by simp [handled]) below
      · exact fires
    | _ => trivial
  · intro passes
    rw [throughout_iff]
    intro after happening past split
    have sound := good.sound.at split
    cases happening with
    | turn serial event place view =>
      intro earlier among other part
      exact (sound.1 earlier among other part).2
    | fired cause place row index view =>
      cases cause with
      | event serial =>
        intro other handled below
        obtain ⟨event, start, before, rest, past_eq, picks, untouched⟩ :=
          sound.turn_of_fired
        subst past_eq
        have turn : core.trace = (after ++ .fired (.event serial) place row index
            view :: before) ++ .turn serial event place start :: rest := by
          simp [split]
        have inside : Happening.handled serial other ∈ rest := by
          rcases List.mem_append.mp handled with inner | outer
          · exact absurd inner (untouched other)
          · simpa using outer
        by_cases watchful : tree.Watchful place
        · exact (good.sound.at turn).2 watchful other inside below
        · exact picks (passes.at turn watchful ⟨other, inside, below⟩)
      | _ => trivial
    | _ => trivial

/-! ### A table in the middle -/

/-- Names of states, events and callbacks.  A callback says in its name how it
ends. -/
inductive Name where
  | X
  | state (number : Nat)
  | event (number : Nat)
  | holds (answer : Bool)
  | acts
  | fails
deriving DecidableEq

/-- Callbacks that do nothing else. -/
def sample : Environment where
  Ident := Name
  Data := Unit
  World := Unit
  decEq := inferInstance
  default := ()
  X := .X
  guard name _ _ := .ok (name = .holds true)
  action name _ world := (if name = .fails then .error () else .ok (), world)
  dispatch _ _ := true
  dispatch_candidate _ _ _ _ := true

/-- A plain state of a sample table. -/
def plain (number : Nat) : State sample := { ident := .state number }

/-- A composite state of a sample table. -/
def nested (number : Nat) : State sample :=
  { ident := .state number, composite := true }

def on (number : Nat) : Trigger sample := { kind := .normal, ident := .event number }

/-- A scalar table over sample states, starting in the first one. -/
def scalar (first : Nat) (others : List Nat)
    (transitions : List (StateTransition sample)) : Table sample where
  transitions := transitions
  regions := [⟨Name.state first, (first :: others).map Name.state⟩]

theorem three_tables : 0 < 3 := by decide

/-- Three scalar tables, each in a state of the one before. -/
def nest : Tree sample where
  size := 3
  node
    | 0 => { scalar 0 [] [] with owner := 0, variant := Name.X, depth := 0 }
    | 1 =>
        { scalar 1 [2]
            [{ in_state := nested 1, event := on 0, out_state := plain 2 }] with
          owner := 0, variant := Name.state 0, depth := 1 }
    | 2 =>
        { scalar 3 [4]
            [{ in_state := plain 3, event := on 0, out_state := plain 4 }] with
          owner := 1, variant := Name.state 1, depth := 2 }
    | _ => { scalar 0 [] [] with owner := 0, variant := Name.X, depth := 1 }
  size_pos := three_tables
  root_depth := by decide
  owner_lt := by decide
  depth_owner := by decide
  regions_pos := by decide
  variants := by decide
  in_composite := by decide
  out_composite := by decide

/-- The event moves the innermost table, and then the one around it. -/
def nest_run : Core sample :=
  final (nest.process_event 5 ⟨Name.event 0, ()⟩) (nest.new ())

theorem nest_run_reached : Reaches nest.toTables nest_run :=
  (@Reaches.new sample nest.toTables ()).process_event 5 ⟨Name.event 0, ()⟩

theorem nest_run_overtakes :
    Reaches nest.toTables nest_run ∧ ¬ Throughout nest.Bubbles nest_run.trace :=
  ⟨nest_run_reached, by decide +kernel⟩

theorem bubbles_iff_passes_nest :
    Throughout nest.Bubbles nest_run.trace ↔
      Throughout nest.Passes nest_run.trace :=
  bubbles_iff_passes nest_run_reached

/-- In every run, at most one normal row of each table or region runs for an
event, and it is the first one that is enabled as it was declared, exactly when
no row leaks through an alternative of its guard. -/
theorem one_row_iff_tight {tree : Tree E} {core : Core E}
    (reached : Reaches tree.toTables core) :
    Throughout tree.OneRow core.trace ↔ Throughout tree.Tight core.trace := by
  have good := reached.good
  constructor
  · intro one_row
    rw [throughout_iff]
    intro after happening past split
    have fact := one_row.at split
    cases happening with
    | fired cause place row index view =>
      cases cause with
      | event serial =>
        intro normal event start turn
        obtain ⟨alone, event', rest, rfl, first⟩ := fact normal
        rw [alone]
        have head : core.trace = (after ++ [.fired (.event serial) place row index
            view]) ++ .turn serial event' place view :: rest := by
          simp [split]
        -- A slot has one turn in a dispatch.
        rcases List.mem_cons.mp turn with same | earlier
        · cases same
          exact Tables.tight_of_enabled (Tables.enabled_of_declared first)
        · exact absurd rfl ((good.sound.at head).1 _ earlier place rfl).1
      | _ => trivial
    | _ => trivial
  · intro tight
    rw [throughout_iff]
    intro after happening past split
    have fact := tight.at split
    have sound := good.sound.at split
    cases happening with
    | fired cause place row index view =>
      cases cause with
      | event serial =>
        intro normal
        rcases sound with ⟨event, rest, rfl, picks⟩ |
          ⟨event, start, first, between, rest, leaked⟩
        · have alone : Tables.fired_before serial place
              (.turn serial event place view :: rest) = false := by
            rw [← Bool.not_eq_true, Tables.fired_before_iff]
            rintro ⟨row', index', view', among⟩
            have earlier : Happening.fired (.event serial) place row' index'
                view' ∈ rest := by simpa using among
            have turn : core.trace = (after ++ [.fired (.event serial) place row
                index view]) ++ .turn serial event place view :: rest := by
              simp [split]
            exact ((good.sound.at turn).1 _ earlier place rfl).1 rfl
          refine ⟨alone, event, rest, rfl, ?_⟩
          have tight := fact normal event view (by simp)
          rw [alone] at tight
          exact Tables.declared_of_pick (fun item => Tables.mem_arm) picks tight
        · have again : Tables.fired_before serial place past = true := by
            rw [Tables.fired_before_iff, leaked.past_eq]
            exact ⟨first.1, first.2, start, by simp⟩
          have tight := fact normal event start (by simp [leaked.past_eq])
          rw [again] at tight
          exact absurd leaked.leaks tight
      | _ => trivial
    | _ => trivial

/-! ### A guard with an alternative -/

/-- A guard of one call. -/
def call (answer : Bool) : Guard Name := ⟨.guard (.holds answer), trivial⟩

/-- `[ false_guard || true_guard ]`. -/
def alternative : Guard Name :=
  ⟨.or (.guard (.holds false)) (.guard (.holds true)),
    Nat.le_refl 3, trivial, trivial⟩

/-- Two regions. Both rows of the first one are for the same event. -/
def pair : Tree sample where
  size := 1
  node _ :=
    { owner := 0, variant := Name.X, depth := 0
      transitions :=
        [{ in_state := plain 0, event := on 0, guard := some (call true),
           out_state := plain 1 },
         { in_state := plain 0, event := on 0, guard := some alternative,
           out_state := plain 2 }]
      regions := [⟨Name.state 0, [Name.state 0, .state 1, .state 2]⟩,
        ⟨Name.state 3, [Name.state 3]⟩] }
  size_pos := Nat.one_pos
  root_depth := by decide
  owner_lt := by decide
  depth_owner := by decide
  regions_pos := by decide
  variants := by decide
  in_composite := by decide
  out_composite := by decide

/-- The first row runs, and the second one behind it. -/
def pair_run : Core sample :=
  final (pair.process_event 5 ⟨Name.event 0, ()⟩) (pair.new ())

theorem pair_run_reached : Reaches pair.toTables pair_run :=
  (@Reaches.new sample pair.toTables ()).process_event 5 ⟨Name.event 0, ()⟩

theorem pair_run_leaks :
    Reaches pair.toTables pair_run ∧ ¬ Throughout pair.OneRow pair_run.trace := by
  refine ⟨pair_run_reached, fun one_row => ?_⟩
  have alone : Throughout Tables.Alone pair_run.trace :=
    one_row.mono fun _ _ => Tables.OneRow.alone
  revert alone
  decide +kernel

theorem one_row_iff_tight_pair :
    Throughout pair.OneRow pair_run.trace ↔ Throughout pair.Tight pair_run.trace :=
  one_row_iff_tight pair_run_reached

end SmlRs.Macros
