/-
Module: SmlRs.Macros.Exits
Purpose: How often the exit sequences of the states of a machine complete.
Trusted boundary: none
Main exports: exits_of, Counted, AtSource, OwnExit, exits_once
-/
import SmlRs.Macros.Logging

namespace SmlRs.Macros

open Lib

variable {E : Environment}

/-! ### Exit sequences in a record -/

/-- How many exit sequences of a slot have completed since it was occupied. -/
def exits_of (place : Slot) : List (Happening E) → Nat
  | [] => 0
  | .exited other :: past =>
      if other = place then exits_of place past + 1 else exits_of place past
  | .entered other :: past => if other = place then 0 else exits_of place past
  | _ :: past => exits_of place past

/-- A row replaces a state behind one exit sequence. -/
def ExitedOnce : Happening E → List (Happening E) → Prop
  | .replaced place _, past => exits_of place past = 1
  | _, _ => True

/-- An external row begins where its source is held. -/
def AtSource : Happening E → List (Happening E) → Prop
  | .fired _ place row _ before, _ =>
      row.internal_transition = false →
        (before.state place).ident = row.in_state.ident
  | _, _ => True

/-- An exit sequence that completes is that of the state the slot holds: the row
that runs it has this state as its source. -/
def Tables.OwnExit (tree : Tables E) : Happening E → List (Happening E) → Prop
  | .exited place, past =>
      (fired_at place past).any (fun begun =>
        begun.2.1.in_state.ident = tree.replayed place past) = true
  | _, _ => True

instance Tables.OwnExit.decidable (tree : Tables E) (happening : Happening E)
    (past : List (Happening E)) : Decidable (tree.OwnExit happening past) :=
  match happening with
  | .exited _ => inferInstanceAs (Decidable (_ = true))
  | .turn .. | .fired .. | .handled .. | .entered .. | .replaced .. | .reset ..
  | .log_state_change .. | .faulted .. | .recovered .. | .raised .. | .offered ..
  | .recovering .. | .surfaced .. | .unentered .. | .follow_up .. | .queued ..
  | .put .. | .put_off .. | .released .. | .requeued .. | .dequeued ..
  | .failed => inferInstanceAs (Decidable True)

/-- The token of a slot counts its exit sequences, and each state is replaced
behind one. -/
structure Counted (core : Core E) : Prop where
  token : ∀ place,
    exits_of place core.trace = (core.view.exit_skip place).toNat
  once : Throughout ExitedOnce core.trace

/-- Notes that are neither exits nor entries nor replacements. -/
def Happening.staying : Happening E → Prop
  | .exited _ | .entered _ | .replaced .. => False
  | _ => True

namespace Counted

variable {core : Core E}

theorem note {happening : Happening E} (counted : Counted core)
    (staying : happening.staying) : Counted (core.note happening) where
  token place := by
    have same : exits_of place (happening :: core.trace) =
        exits_of place core.trace := by
      cases happening <;> first | rfl | cases staying
    exact same.trans (counted.token place)
  once := by
    refine ⟨?_, counted.once⟩
    cases happening <;> trivial

/-- A step that neither adds to the record nor changes a token. -/
theorem same {core' : Core E} (counted : Counted core)
    (tokens : core'.view.exit_skip = core.view.exit_skip)
    (trace : core'.trace = core.trace) : Counted core' where
  token place := by
    rw [tokens, trace]
    exact counted.token place
  once := by
    rw [trace]
    exact counted.once

theorem exited (counted : Counted core) {place : Slot}
    (free : core.view.exit_skip place = false) :
    Counted (core.exited place) where
  token other := by
    show (if place = other then exits_of other core.trace + 1
      else exits_of other core.trace) =
        (Function.update core.view.exit_skip place true other).toNat
    rw [counted.token other]
    by_cases here : place = other
    · subst here
      simp [free]
    · rw [if_neg here, Function.update_of_ne (Ne.symm here)]
  once := ⟨trivial, counted.once⟩

/-- A slot is occupied anew, and its token is cleared. -/
theorem entered (counted : Counted core) (place : Slot) {core' : Core E}
    (tokens : core'.view.exit_skip =
      Function.update core.view.exit_skip place false)
    (trace : core'.trace = .entered place :: core.trace) : Counted core' where
  token other := by
    rw [tokens, trace]
    show (if place = other then 0 else exits_of other core.trace) = _
    by_cases here : place = other
    · subst here
      simp
    · rw [if_neg here, Function.update_of_ne (Ne.symm here)]
      exact counted.token other
  once := by
    rw [trace]
    exact ⟨trivial, counted.once⟩

theorem replaced (counted : Counted core) {place : Slot} (held : E.Ident)
    (left : core.view.exit_skip place = true) :
    Counted (core.note (.replaced place held)) where
  token := counted.token
  once := by
    refine ⟨?_, counted.once⟩
    show exits_of place core.trace = 1
    rw [counted.token place, left]
    rfl

theorem arrived (tree : Tables E) (counted : Counted core) (cause : Cause)
    {place : Slot} (row : StateTransition E) (output : E.Data)
    (left : core.view.exit_skip place = true) :
    Counted (tree.arrived cause place row output core) := by
  have moved : Counted (((core.note (.replaced place
      (core.view.state place).ident)).set ((core.view.replace place
        ⟨row.out_state.ident, output⟩).skip place false)).note
          (.entered place)) :=
    (counted.replaced (core.view.state place).ident left).entered place rfl rfl
  unfold Tables.arrived
  dsimp only
  split
  · exact moved.note trivial
  · exact moved

end Counted

/-- No step exits a slot twice, or leaves one that it has not exited. -/
theorem counted_steps (matched : Prop) (tree : Tables E) :
    Steps matched tree fun core core' => Counted core → Counted core' where
  frame :=
    { refl := fun _ => id
      trans := fun first second counted => second (first counted) }
  world _ _ counted := counted.same rfl rfl
  deferred _ _ counted := counted.same rfl rfl
  pending _ _ counted := counted.same rfl rfl
  outer _ happening outside counted := by
    apply counted.note
    cases happening <;> trivial
  exits _ _ _ _ free counted := counted.exited free
  leaves _ _ _ _ _ _ free counted := counted.exited free
  enters place _ counted := counted.entered place rfl rfl
  resets place core counted := by
    have noted : Counted (core.note (.reset place)) := counted.note trivial
    exact noted.same rfl rfl
  arrives cause _ row output _ _ _ _ _ _ left counted :=
    counted.arrived tree cause row output left
  unentered _ _ counted := counted.note trivial
  started place core free counted := by
    apply counted.entered place _ rfl
    rw [← free]
    exact (Function.update_eq_self place core.view.exit_skip).symm
  fired _ _ _ _ _ _ counted := counted.note trivial
  turn _ _ _ _ counted := counted.note trivial
  handled _ _ _ counted := counted.note trivial
  recovering _ _ _ _ counted := counted.note trivial
  counted _ counted := counted.same rfl rfl

/-! ### Whose exit sequence completes -/

theorem fired_of_running {place : Slot} {record : List (Happening E)}
    {cause : Cause} {row : StateTransition E} {before : View E}
    (running : fired_at place record = some (cause, row, before)) :
    ∃ index, .fired cause place row index before ∈ record := by
  obtain ⟨happening, among, begins⟩ :=
    List.exists_of_findSome?_eq_some running
  cases happening with
  | fired cause' place' row' index before' =>
    simp only [Happening.row_at] at begins
    split at begins
    · rename_i here
      cases begins
      subst here
      exact ⟨index, among⟩
    · cases begins
  | _ => cases begins

/-- The exit sequences that have completed, in a record of which the rows begin
at their sources. -/
structure Owned (tree : Tables E) (core : Core E) : Prop where
  traced : tree.Traced core
  own : Throughout tree.OwnExit core.trace

namespace Owned

variable {tree : Tables E} {core : Core E}

theorem exited {cause : Cause} {place : Slot} {row : StateTransition E}
    (owned : Owned tree core) (external : row.internal_transition = false)
    (running : Running cause place row core)
    (sources : Throughout AtSource core.trace) :
    Throughout tree.OwnExit (core.exited place).trace := by
  obtain ⟨before, fired, same⟩ := running
  obtain ⟨index, among⟩ := fired_of_running fired
  obtain ⟨past, source, _⟩ := sources.at_mem among
  refine ⟨?_, owned.own⟩
  have held : row.in_state.ident = tree.replayed place core.trace := by
    rw [← owned.traced.states place, same]
    exact (source external).symm
  simp only [Tables.OwnExit, fired, Option.any_some, held, decide_true]

end Owned

/-- Notes that say nothing of rows that begin or exit. -/
def Happening.uninvolved : Happening E → Prop
  | .fired .. | .exited _ => False
  | _ => True

/-- Notes that rows begin and exit by are added one by one. -/
theorem throughout_uninvolved {tree : Tables E} {added past : List (Happening E)}
    (aside : ∀ happening ∈ added, happening.uninvolved) :
    (Throughout AtSource (added ++ past) ↔ Throughout AtSource past) ∧
      (Throughout tree.OwnExit (added ++ past) ↔
        Throughout tree.OwnExit past) := by
  induction added with
  | nil => exact ⟨Iff.rfl, Iff.rfl⟩
  | cons happening added ih =>
    obtain ⟨sources, own⟩ := ih fun earlier among => aside earlier (by simp [among])
    have here := aside happening (by simp)
    rw [List.cons_append, throughout_cons, throughout_cons, sources, own]
    cases happening <;>
      first
      | exact ⟨and_iff_right trivial, and_iff_right trivial⟩
      | cases here

/-- What a step of a machine of one table does to a record of which the rows
begin at their sources. -/
structure Owning (tree : Tables E) (core core' : Core E) : Prop where
  traced : tree.Traced core → tree.Traced core'
  sources : Throughout AtSource core'.trace → Throughout AtSource core.trace
  own : Throughout AtSource core'.trace → Owned tree core →
    Throughout tree.OwnExit core'.trace

namespace Owning

variable {tree : Tables E} {core core' : Core E}

theorem aside (added : List (Happening E))
    (traced : tree.Traced core → tree.Traced core')
    (grown : core'.trace = added ++ core.trace)
    (notes : ∀ happening ∈ added, happening.uninvolved) : Owning tree core core' where
  traced := traced
  sources := by
    rw [grown, (@throughout_uninvolved _ tree _ _ notes).1]
    exact id
  own _ owned := by
    rw [grown, (throughout_uninvolved notes).2]
    exact owned.own

theorem note {happening : Happening E}
    (traced : tree.Traced core → tree.Traced (core.note happening))
    (aside : happening.uninvolved) : Owning tree core (core.note happening) :=
  Owning.aside [happening] traced rfl (by simpa using aside)

theorem same (traced : tree.Traced core → tree.Traced core')
    (trace : core'.trace = core.trace) : Owning tree core core' :=
  Owning.aside [] traced trace (by simp)

end Owning

theorem arrived_uninvolved (tree : Tables E) (cause : Cause) (place : Slot)
    (row : StateTransition E) (output : E.Data) (core : Core E) :
    ∃ added, (tree.arrived cause place row output core).trace =
        added ++ core.trace ∧ ∀ happening ∈ added, happening.uninvolved := by
  unfold Tables.arrived
  dsimp only
  split
  · refine ⟨[.log_state_change _ _, .entered place, .replaced place _], rfl, ?_⟩
    simp [Happening.uninvolved]
  · refine ⟨[.entered place, .replaced place _], rfl, ?_⟩
    simp [Happening.uninvolved]

theorem owning_steps (matched : Prop) {tree : Tables E} (alone : tree.size = 1) :
    Steps matched tree (Owning tree) := by
  have traced := tree.traced_steps matched
  exact
    { frame :=
        { refl := fun _ => .same id rfl
          trans := fun first second =>
            { traced := fun start => second.traced (first.traced start)
              sources := fun holds => first.sources (second.sources holds)
              own := fun holds start => second.own holds
                ⟨first.traced start.traced,
                  first.own (second.sources holds) start⟩ } }
      world := fun core world => .same (traced.world core world) rfl
      deferred := fun core events => .same (traced.deferred core events) rfl
      pending := fun core events => .same (traced.pending core events) rfl
      outer := fun core happening outside => by
        apply Owning.note (traced.outer core happening outside)
        cases happening <;> trivial
      exits := fun place core below inside => by omega
      leaves := fun cause place row core external running free =>
        { traced := traced.leaves cause place row core external running free
          sources := fun holds => holds.2
          own := fun holds owned => owned.exited external running holds.2 }
      enters := fun place core =>
        .aside [.entered place] (traced.enters place core) rfl
          (by simp [Happening.uninvolved])
      resets := fun place core =>
        .aside [.reset place] (traced.resets place core) rfl
          (by simp [Happening.uninvolved])
      arrives := fun cause place row output core inside declared listed external
          running left => by
        obtain ⟨added, grown, notes⟩ :=
          arrived_uninvolved tree cause place row output core
        exact .aside added (traced.arrives cause place row output core inside
          declared listed external running left) grown notes
      unentered := fun place core => .note (traced.unentered place core) trivial
      started := fun place core free =>
        .note (traced.started place core free) trivial
      fired := fun cause place row index core known =>
        { traced := traced.fired cause place row index core known
          sources := fun holds => holds.2
          own := fun _ owned => ⟨trivial, owned.own⟩ }
      turn := fun serial event place core =>
        .note (traced.turn serial event place core) trivial
      handled := fun serial place core =>
        .note (traced.handled serial place core) trivial
      recovering := fun serial error place core =>
        .note (traced.recovering serial error place core) trivial
      counted := fun core => .same (traced.counted core) rfl }

/-- The rows of a flat machine begin at their sources. -/
theorem sources_steps (tree : Tables E) : Steps True tree fun core core' =>
    Throughout AtSource core.trace → Throughout AtSource core'.trace where
  frame :=
    { refl := fun _ => id
      trans := fun first second holds => second (first holds) }
  world _ _ := id
  deferred _ _ := id
  pending _ _ := id
  outer _ happening outside holds := by
    refine ⟨?_, holds⟩
    cases happening <;> trivial
  exits _ _ _ _ _ holds := ⟨trivial, holds⟩
  leaves _ _ _ _ _ _ _ holds := ⟨trivial, holds⟩
  enters _ _ holds := ⟨trivial, holds⟩
  resets _ _ holds := ⟨trivial, holds⟩
  arrives cause place row output core _ _ _ _ _ _ holds := by
    obtain ⟨added, grown, notes⟩ :=
      arrived_uninvolved tree cause place row output core
    rw [grown, (@throughout_uninvolved _ tree _ _ notes).1]
    exact holds
  unentered _ _ holds := ⟨trivial, holds⟩
  started _ _ _ holds := ⟨trivial, holds⟩
  fired _ _ _ _ _ known holds := ⟨fun _ => known trivial, holds⟩
  turn _ _ _ _ holds := ⟨trivial, holds⟩
  handled _ _ _ holds := ⟨trivial, holds⟩
  recovering _ _ _ _ holds := ⟨trivial, holds⟩
  counted _ := id

/-! ### Runs -/

theorem Machine.at_source_flat {code : Flat E} {core : Core E}
    (reached : (Machine.flat code).Reaches core) :
    Throughout AtSource core.trace := by
  have steps : Steps (Machine.flat code).matched (Machine.flat code).tables
      (fun core core' : Core E =>
        Throughout AtSource core.trace → Throughout AtSource core'.trace) :=
    sources_steps code.tables
  exact Machine.invariant steps (fun moved holds => moved holds)
    (fun _ => trivial) reached

/-- In every run of a machine without nested tables, the token of a slot is set
exactly when an exit sequence has completed since the slot was occupied, and a
state is replaced behind exactly one.  Where rows begin at their sources, as those
of a flat machine do, each of these sequences is that of the state it leaves. -/
theorem exits_once {machine : Machine E} (alone : machine.tables.size = 1)
    {core : Core E} (reached : machine.Reaches core) :
    ((∀ place, exits_of place core.trace ≤ 1 ∧
          (core.view.exit_skip place = true ↔
            exits_of place core.trace = 1)) ∧
        Throughout ExitedOnce core.trace) ∧
      (Throughout AtSource core.trace →
        Throughout machine.tables.OwnExit core.trace) ∧
      ∀ code, machine = .flat code → Throughout AtSource core.trace := by
  have counted := machine.invariant (counted_steps _ machine.tables)
    (fun moved counted => moved counted) (fun _ => ⟨fun _ => rfl, trivial⟩)
    reached
  have owned : Throughout AtSource core.trace → Owned machine.tables core :=
    @Machine.invariant _ _ _
      (fun core => Throughout AtSource core.trace → Owned machine.tables core)
      (owning_steps _ alone)
      (fun moved before sources =>
        have start := before (moved.sources sources)
        ⟨moved.traced start.traced, moved.own sources start⟩)
      (fun _ _ => ⟨⟨fun _ => rfl, rfl⟩, trivial⟩) _ reached
  refine ⟨⟨fun place => ?_, counted.once⟩, fun sources => (owned sources).own, ?_⟩
  · rw [counted.token place]
    cases core.view.exit_skip place <;> simp
  · rintro code rfl
    exact Machine.at_source_flat reached

/-! ### Two rows of a region in one turn -/

/-- The row that runs behind another one exits its own source again, and not the
state that the other one has entered. -/
theorem pair_run_exits_other :
    (Machine.tree pair).Reaches pair_run ∧
      ¬ Throughout pair.OwnExit pair_run.trace :=
  ⟨(@Machine.Reaches.new sample (.tree pair) ()).process_event 5
    ⟨Name.event 0, ()⟩, by decide +kernel⟩

theorem exits_once_pair :
    ((∀ place, exits_of place pair_run.trace ≤ 1 ∧
          (pair_run.view.exit_skip place = true ↔
            exits_of place pair_run.trace = 1)) ∧
        Throughout ExitedOnce pair_run.trace) ∧
      (Throughout AtSource pair_run.trace →
        Throughout pair.OwnExit pair_run.trace) ∧
      ∀ code, (Machine.tree pair) = .flat code →
        Throughout AtSource pair_run.trace :=
  exits_once rfl ((@Machine.Reaches.new sample (.tree pair) ()).process_event 5
    ⟨Name.event 0, ()⟩)

end SmlRs.Macros
