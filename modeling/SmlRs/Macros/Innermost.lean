/-
Module: SmlRs.Macros.Innermost
Purpose: Which exception rows run for one fault on the way from a table to the
  root.
Trusted boundary: none
Main exports: Innermost, Abstains, Walked, Tidy, tidies_keeps, Reaches.tidy,
  innermost_iff_abstains
-/
import SmlRs.Macros.Routing

namespace SmlRs.Macros

open Lib

variable {E : Environment}

/-- The walk that an exception row runs in, and its slot. -/
def Happening.recovery : Happening E → Option (Nat × Slot)
  | .fired (.exception serial) place _ _ _ => some (serial, place)
  | _ => none

namespace Tables

variable (tree : Tables E)

/-! ### What the record says about a walk -/

/-- An exception row that runs is the first one of its walk on the way from any
table to the root. -/
def Innermost : Happening E → List (Happening E) → Prop
  | .fired (.exception serial) place _ _ _, past =>
      ∀ earlier ∈ past, ∀ other, earlier.recovery = some (serial, other) →
        other ≠ place ∧ ¬ tree.Below place.node other ∧
          ¬ tree.Below other.node place
  | _, _ => True

instance (happening : Happening E) (past : List (Happening E)) :
    Decidable (tree.Innermost happening past) :=
  match happening with
  | .fired (.exception serial) place _ _ _ =>
      decidable_of_iff (∀ earlier ∈ past, ∀ walk ∈ earlier.recovery,
        walk.1 = serial → walk.2 ≠ place ∧ ¬ tree.Below place.node walk.2 ∧
          ¬ tree.Below walk.2.node place) (by
          constructor
          · intro all earlier among other owned
            exact all earlier among (serial, other) owned rfl
          · rintro all earlier among ⟨number, other⟩ owned rfl
            exact all earlier among other owned)
  | .fired .completion .. | .fired (.event _) .. | .turn .. | .handled ..
  | .exited .. | .entered .. | .replaced .. | .reset .. | .log_state_change ..
  | .faulted .. | .recovered .. | .raised .. | .offered .. | .recovering ..
  | .surfaced .. | .unentered .. | .follow_up .. | .queued .. | .put ..
  | .put_off .. | .released .. | .requeued .. | .dequeued .. | .failed =>
      inferInstanceAs (Decidable True)

/-- A region of an orthogonal table picks no exception row behind one of a table
nested in it. -/
def Abstains : Happening E → List (Happening E) → Prop
  | .recovering serial error place view, past =>
      (tree.node place.node).orthogonal = true →
        (∃ earlier ∈ past, ∃ other, earlier.recovery = some (serial, other) ∧
          tree.Below other.node place) →
          tree.exception_pick place error view = none
  | _, _ => True

/-- What the code makes sure of in a walk. -/
def Walked : Happening E → List (Happening E) → Prop
  | .recovering serial _ place _, past =>
      (∀ earlier ∈ past, ∀ other, earlier.recovery = some (serial, other) →
        other ≠ place ∧ ¬ tree.Below place.node other) ∧
      ((tree.node place.node).orthogonal = false →
        ∀ earlier ∈ past, ∀ other, earlier.recovery ≠ some (serial, other))
  | .fired (.exception serial) place row index view, past =>
      ∃ error rest, past = .recovering serial error place view :: rest ∧
        tree.exception_pick place error view = some (row, index)
  | _, _ => True

/-- A turn of a walk that picks a row. -/
def Recovering : Happening E → Prop
  | .recovering _ error place view => tree.exception_pick place error view ≠ none
  | _ => False

/-- The row of such a turn, right behind it. -/
def Recovers : Happening E → Happening E → Prop
  | .fired (.exception serial) place _ _ _, .recovering serial' _ place' _ =>
      serial = serial' ∧ place = place'
  | _, _ => False

/-- The record of the walks of a machine. -/
structure Tidy (core : Core E) : Prop where
  numbered : ∀ happening ∈ core.trace, ∀ serial place,
    happening.recovery = some (serial, place) → serial < core.serial
  walked : Throughout tree.Walked core.trace
  answered : Answered Recovers tree.Recovering core.trace

end Tables

/-- A tidy record stays tidy and grows by later walks. -/
def Tidies (tree : Tables E) (core core' : Core E) : Prop :=
  tree.Tidy core →
    tree.Tidy core' ∧ Later Happening.recovery core.serial core core'

/-- Happenings outside of the walks. -/
def Happening.aside : Happening E → Prop
  | .recovering .. | .fired (.exception _) .. => False
  | _ => True

section Tidies

variable {tree : Tables E} {core : Core E} {happening : Happening E}

theorem Happening.recovery_of_aside (aside : happening.aside) :
    happening.recovery = none := by
  cases happening with
  | fired cause place row index view =>
    cases cause with
    | exception serial => cases aside
    | _ => rfl
  | _ => rfl

theorem Tables.Tidy.note (tidy : tree.Tidy core) (aside : happening.aside) :
    tree.Tidy (core.note happening) where
  numbered := by
    intro entry among serial place owned
    rcases List.mem_cons.mp among with rfl | among
    · rw [Happening.recovery_of_aside aside] at owned
      cases owned
    · exact tidy.numbered entry among serial place owned
  walked := by
    refine ⟨?_, tidy.walked⟩
    unfold Tables.Walked
    split
    · cases aside
    · cases aside
    · trivial
  answered := by
    refine tidy.answered.cons ?_
    unfold Tables.Recovering
    split
    · cases aside
    · exact id

theorem tidies_frame : Frame (Tidies tree) where
  refl _ tidy := ⟨tidy, .refl⟩
  trans first second tidy := by
    obtain ⟨middle, later⟩ := first tidy
    obtain ⟨final, onward⟩ := second middle
    exact ⟨final, later.trans (onward.lower later.1)⟩

theorem tidies_note (aside : happening.aside) :
    Tidies tree core (core.note happening) := by
  intro tidy
  refine ⟨tidy.note aside, .note ?_⟩
  simp [Happening.recovery_of_aside aside]

theorem tidies_of_eq {core' : Core E} (trace : core'.trace = core.trace)
    (counted : core.serial ≤ core'.serial) : Tidies tree core core' := by
  intro tidy
  refine ⟨⟨?_, trace ▸ tidy.walked, trace ▸ tidy.answered⟩, counted, [],
    trace, by simp⟩
  intro entry among serial place owned
  rw [trace] at among
  exact Nat.lt_of_lt_of_le (tidy.numbered entry among serial place owned) counted

theorem tidies_quiet : Quiet (Tidies tree) where
  frame := tidies_frame
  world _ _ := tidies_of_eq rfl (Nat.le_refl _)
  deferred _ _ := tidies_of_eq rfl (Nat.le_refl _)
  pending _ _ := tidies_of_eq rfl (Nat.le_refl _)
  outer core happening outside := by
    refine tidies_note ?_
    cases happening <;> trivial

theorem tidies_moving : Moving (Tidies tree) where
  frame := tidies_frame
  view _ _ := tidies_of_eq rfl (Nat.le_refl _)
  moves core happening moves := by
    refine tidies_note ?_
    cases happening <;> trivial

/-- The rows of events and completions. -/
theorem tidies_bodies {calls : Calls E}
    (nested : ∀ event, Within (Tidies tree) (calls.process_event event))
    {cause : Cause} (event : cause.recovers = false) (place : Slot) :
    Bodies tree (Tidies tree) calls cause place := by
  intro row _ payload index
  refine Within.seq tidies_frame (Within.gets tidies_frame) fun core => ?_
  refine Within.seq tidies_frame (Within.modifies fun core => ?_) fun _ => ?_
  · refine tidies_note ?_
    cases cause with
    | exception serial => cases event
    | _ => trivial
  · exact run_row_within tidies_quiet tidies_moving nested cause place row
      payload

end Tidies

/-! ### The order of a walk -/

namespace Tree

variable (tree : Tree E)

theorem walk_nodup : (tree.blocks ++ [0]).Nodup := by
  refine tree.blocks_nodup.append (List.nodup_singleton 0) ?_
  intro node among root
  have pos := (Tables.mem_blocks.mp among).1
  simp only [List.mem_singleton] at root
  omega

theorem walk_pairwise :
    (tree.blocks ++ [0]).Pairwise fun first second =>
      (tree.node second).depth ≤ (tree.node first).depth := by
  refine List.pairwise_append.mpr ⟨tree.blocks_pairwise, by simp, ?_⟩
  intro first _ second root
  rw [List.mem_singleton.mp root, tree.root_depth]
  exact Nat.zero_le _

/-- The slots that come later in the walk do not lie in an earlier one. -/
theorem walk_order_pairwise :
    tree.walk_order.Pairwise fun first second =>
      first ≠ second ∧ ¬ tree.Below second.node first := by
  have sorted := tree.walk_nodup.and tree.walk_pairwise
  refine List.pairwise_flatMap.mpr ⟨fun node among => ?_, ?_⟩
  · refine (tree.slots_nodup node).imp_of_mem ?_
    intro first second one two differ
    refine ⟨differ, fun below => ?_⟩
    have inside := (tree.placed_of_walk among two).1
    have deeper := tree.depth_lt_of_below inside below
    rw [(Tables.mem_slots.mp one).1, (Tables.mem_slots.mp two).1] at deeper
    omega
  · refine sorted.imp_of_mem ?_
    intro above below one two ⟨differ, ordered⟩ first here second there
    obtain ⟨rfl, _⟩ := Tables.mem_slots.mp here
    obtain ⟨rfl, _⟩ := Tables.mem_slots.mp there
    constructor
    · intro same
      exact differ (congrArg Slot.node same)
    · intro nested
      have inside := (tree.placed_of_walk two there).1
      have deeper := tree.depth_lt_of_below inside nested
      omega

theorem walk_order_above {front back : List Slot} {place other : Slot}
    (split : tree.walk_order = front ++ place :: back) (earlier : other ∈ front) :
    other ≠ place ∧ ¬ tree.Below place.node other := by
  have ordered := tree.walk_order_pairwise
  rw [split] at ordered
  exact (List.pairwise_append.mp ordered).2.2 other earlier place (by simp)

end Tree

/-! ### One walk -/

/-- In a walk behind the slots of `front`, before (`false`) and after (`true`) a
row has handled the error. -/
structure Tables.Round (tree : Tables E) (serial : Nat) (base : Core E)
    (front : List Slot) (handled : Bool) (core : Core E) : Prop where
  tidy : tree.Tidy core
  begun : serial < core.serial
  later : Later Happening.recovery serial base core
  rows : ∀ happening ∈ core.trace, ∀ place,
    happening.recovery = some (serial, place) → place ∈ front ∧ handled = true

section Walk

variable {tree : Tree E} {calls : Calls E} {serial : Nat} {error : E.Data}
  {base core : Core E} {front back : List Slot} {place : Slot} {handled : Bool}

theorem Tables.Round.widen (round : tree.Round serial base front handled core)
    (place : Slot) : tree.Round serial base (front ++ [place]) handled core where
  tidy := round.tidy
  begun := round.begun
  later := round.later
  rows happening among other owned := by
    obtain ⟨inside, handled⟩ := round.rows happening among other owned
    exact ⟨by simp [inside], handled⟩

/-- A turn that may follow picks no row. -/
theorem Tables.Round.idle (round : tree.Round serial base front handled core)
    (walked : tree.Walked (.recovering serial error place core.view) core.trace)
    (none : tree.exception_pick place error core.view = none) :
    tree.Round serial base (front ++ [place]) handled
      (core.note (.recovering serial error place core.view)) where
  tidy :=
    { numbered := by
        intro entry among number other owned
        rcases List.mem_cons.mp among with rfl | among
        · cases owned
        · exact round.tidy.numbered entry among number other owned
      walked := ⟨walked, round.tidy.walked⟩
      answered := round.tidy.answered.cons fun picks => picks none }
  begun := round.begun
  later := round.later.trans (.note fun _ _ owned => by cases owned)
  rows happening among other owned := by
    rcases List.mem_cons.mp among with rfl | among
    · cases owned
    · exact (round.widen place).rows happening among other owned

/-- A turn that may follow, with the row that it picks. -/
theorem Tables.Round.fire (round : tree.Round serial base front handled core)
    (walked : tree.Walked (.recovering serial error place core.view) core.trace)
    {row : StateTransition E} {index : Nat}
    (picks : tree.exception_pick place error core.view = some (row, index)) :
    tree.Round serial base (front ++ [place]) true
      ((core.note (.recovering serial error place core.view)).note
        (.fired (.exception serial) place row index core.view)) where
  tidy :=
    { numbered := by
        intro entry among number other owned
        simp only [Core.note_trace, List.mem_cons] at among
        rcases among with rfl | rfl | among
        · cases owned
          exact round.begun
        · cases owned
        · exact round.tidy.numbered entry among number other owned
      walked := ⟨⟨error, core.trace, rfl, picks⟩, walked, round.tidy.walked⟩
      answered := round.tidy.answered.cons_cons ⟨rfl, rfl⟩ id }
  begun := round.begun
  later := by
    refine (round.later.trans (.note ?_)).trans (.note ?_)
    · intro number other owned
      cases owned
    · intro number other owned
      cases owned
      exact Nat.le_refl _
  rows happening among other owned := by
    simp only [Core.note_trace, List.mem_cons] at among
    rcases among with rfl | rfl | among
    · cases owned
      exact ⟨by simp, rfl⟩
    · cases owned
    · exact ⟨((round.widen place).rows happening among other owned).1, rfl⟩

/-- What a row does belongs to later walks. -/
theorem Tables.Round.advance {core' : Core E}
    (round : tree.Round serial base front handled core)
    (moved : Tidies tree.toTables core core') :
    tree.Round serial base front handled core' := by
  obtain ⟨tidy, later⟩ := moved round.tidy
  refine ⟨tidy, Nat.lt_of_lt_of_le round.begun later.1,
    round.later.trans (later.lower (Nat.le_of_lt round.begun)), ?_⟩
  obtain ⟨_, added, grown, newer⟩ := later
  intro happening among other owned
  rw [grown] at among
  rcases List.mem_append.mp among with inner | before
  · have onward := newer happening inner serial other owned
    have begun := round.begun
    omega
  · exact round.rows happening before other owned

/-- Only rows of slots in front have run when a slot has its turn. -/
theorem Tables.Round.walked (round : tree.Round serial base front handled core)
    (split : tree.walk_order = front ++ place :: back)
    (regions : handled = true → (tree.node place.node).orthogonal = true)
    (view : View E) :
    tree.Walked (.recovering serial error place view) core.trace := by
  constructor
  · intro earlier among other owned
    exact tree.walk_order_above split (round.rows earlier among other owned).1
  · intro scalar earlier among other owned
    have orthogonal := regions (round.rows earlier among other owned).2
    rw [scalar] at orthogonal
    cases orthogonal

/-- One turn of a walk. -/
theorem exception_code_round
    (nested : ∀ event,
      Within (Tidies tree.toTables) (calls.process_event event))
    (split : tree.walk_order = front ++ place :: back)
    (regions : handled = true → (tree.node place.node).orthogonal = true) :
    Triple (tree.Round serial base front handled)
      (tree.exception_code calls serial place error)
      (fun recovery => tree.Round serial base (front ++ [place])
        (handled || recovery.isSome))
      fun _ core => tree.Tidy core ∧
        Later Happening.recovery serial base core := by
  intro core round
  have walked : tree.Walked (.recovering serial error place core.view)
      core.trace := round.walked split regions core.view
  cases picks : tree.exception_pick place error core.view with
  | none =>
    have idle := round.idle walked picks
    rcases Tables.exception_code_of_pick_none picks with run | ⟨fault, run⟩
    · rw [run]
      simpa using idle
    · rw [run]
      have noted := (@tidies_quiet _ tree.toTables).outer
        (core.note (.recovering serial error place core.view))
        (.raised (.exception serial)) trivial
      have raised := idle.advance noted
      exact ⟨raised.tidy, raised.later⟩
  | some item =>
    obtain ⟨row, index⟩ := item
    obtain ⟨rfl, run⟩ := Tables.exception_code_of_pick_some picks
    have fired := round.fire walked picks
    rw [run]
    have body : Triple
        (· = core.note (.recovering serial error place core.view))
        (tree.row_body calls (.exception serial) place row
          (tree.payload place (core.view.state place).data error core.view row)
          0)
        (fun _ => tree.Round serial base (front ++ [place]) true)
        fun _ => tree.Round serial base (front ++ [place]) true := by
      apply Triple.reads
      intro core'
      apply @Triple.changes _ _ _ _ _ _
        (tree.Round serial base (front ++ [place]) true)
      · rintro _ ⟨rfl, rfl⟩
        exact fired
      · exact (run_row_within tidies_quiet tidies_moving nested _ _ _ _).triple
          fun moved round => round.advance moved
    refine Triple.seq (body.conseq (fun _ => id) (fun _ _ => id) ?_)
      (fun _ => Triple.returns ?_) _ rfl
    · exact fun fault core round => ⟨round.tidy, round.later⟩
    · intro core round
      simpa using round

/-- A walk begins. -/
theorem Tables.Tidy.offer (tidy : tree.Tidy core) :
    tree.Round core.serial core [] false
      ({ core with serial := core.serial + 1 }.note (.offered core.serial)) where
  tidy := by
    obtain ⟨numbered, walked, answered⟩ := tidy
    have counted : tree.Tidy { core with serial := core.serial + 1 } :=
      ⟨fun entry among serial place owned =>
        Nat.lt_succ_of_lt (numbered entry among serial place owned),
        walked, answered⟩
    exact counted.note trivial
  begun := Nat.lt_succ_self _
  later := ⟨Nat.le_succ _, [.offered core.serial], rfl, by
    simp [Happening.recovery]⟩
  rows happening among place owned := by
    rcases List.mem_cons.mp among with rfl | among
    · cases owned
    · have earlier := tidy.numbered happening among _ _ owned
      omega

theorem recover_walk_tidies
    (nested : ∀ event,
      Within (Tidies tree.toTables) (calls.process_event event))
    (error : E.Data) (site : Nat) :
    Within (Tidies tree.toTables) (tree.recover_walk calls error site) := by
  intro core
  have walks : Walks tree.toTables calls core.serial error
      (tree.Round core.serial core) fun _ core' => tree.Tidy core' ∧
        Later Happening.recovery core.serial core core' :=
    { turn := fun _ _ _ _ split regions =>
        exception_code_round nested split regions
      skip := fun _ place _ _ round => round.widen place }
  have walk (tidy : tree.Tidy core) :=
    walks.recover_walk site rfl tidy.offer core rfl
  cases run : tree.recover_walk calls error site core with
  | ok value core' =>
    rw [run] at walk
    exact fun tidy => ⟨(walk tidy).tidy, (walk tidy).later⟩
  | error fault core' =>
    rw [run] at walk
    exact walk

end Walk

/-! ### Whole runs -/

section Runs

variable {tree : Tree E} {core : Core E}

theorem tidies_keeps : Keeps tree.toTables (Tidies tree.toTables) where
  toQuiet := tidies_quiet
  completion calls nested place _ := tidies_bodies nested rfl place
  recover _ nested := recover_walk_tidies nested
  dispatch calls nested event core := by
    apply dispatch_within tidies_quiet
    · exact fun core => tidies_of_eq rfl (Nat.le_succ _)
    · exact fun _ _ _ _ => tidies_note trivial
    · exact fun _ _ _ => tidies_note trivial
    · exact fun serial place _ => tidies_bodies nested rfl place

theorem Reaches.tidy (reached : Reaches tree.toTables core) : tree.Tidy core := by
  have fresh (world : E.World) : tree.Tidy (tree.new world) :=
    ⟨by simp [Tables.new], trivial, trivial⟩
  refine reached.invariant tidies_keeps ?_ fresh fun world => ?_
  · exact fun moved tidy => (moved tidy).1
  · exact (tidies_moving.initial_entries.final _ (fresh world)).1

/-- The rows of a walk that have run lie on different ways to the root exactly
when the regions of an orthogonal table pick none behind one of a table nested in
them. -/
theorem innermost_iff_abstains (reached : Reaches tree.toTables core) :
    Throughout tree.Innermost core.trace ↔
      Throughout tree.Abstains core.trace := by
  have tidy := reached.tidy
  constructor
  · intro innermost
    refine throughout_iff.mpr fun after entry past split => ?_
    unfold Tables.Abstains
    split
    · rename_i serial error place view
      rintro orthogonal ⟨earlier, among, other, owned, below⟩
      by_contra picks
      obtain ⟨front, answer, rfl, recovers⟩ := tidy.answered.answer split picks
      unfold Tables.Recovers at recovers
      split at recovers
      · rename_i number here _ _ _ _ _ _ _ same
        cases same
        obtain ⟨rfl, rfl⟩ := recovers
        have behind := innermost.at (split.trans (List.append_assoc front _ _))
        exact (behind earlier (by simp [among]) other owned).2.2 below
      · cases recovers
    · trivial
  · intro abstains
    refine throughout_iff.mpr fun after entry past split => ?_
    unfold Tables.Innermost
    split
    · rename_i serial place row index view
      obtain ⟨error, rest, rfl, picks⟩ := tidy.walked.at split
      have before : core.trace =
          (after ++ [.fired (.exception serial) place row index view]) ++
            .recovering serial error place view :: rest := by
        rw [split]
        simp
      obtain ⟨apart, alone⟩ := tidy.walked.at before
      intro earlier among other owned
      rcases List.mem_cons.mp among with rfl | among
      · cases owned
      obtain ⟨differs, outside⟩ := apart earlier among other owned
      refine ⟨differs, outside, fun below => ?_⟩
      cases orthogonal : (tree.node place.node).orthogonal with
      | false => exact alone orthogonal earlier among other owned
      | true =>
        have idle := abstains.at before orthogonal
          ⟨earlier, among, other, owned, below⟩
        rw [idle] at picks
        cases picks
    · trivial

end Runs

/-! ### A table in a region -/

theorem two_tables : 0 < 2 := by decide

/-- The row for any error in a state. -/
def rescue (state : State sample) : StateTransition sample where
  in_state := state
  event := { kind := .exception, ident := Name.X, wildcard := true }
  out_state := state
  internal_transition := true

/-- Two regions, and a table in a state of the first one. The region and the
table both have a row for any error. -/
def guarded_region : Tree sample where
  size := 2
  node
    | 0 =>
        { transitions := [rescue (nested 0)]
          regions := [⟨Name.state 0, [Name.state 0]⟩,
            ⟨Name.state 1, [Name.state 1]⟩]
          owner := 0, variant := Name.X, depth := 0 }
    | _ =>
        { scalar 2 []
            [{ in_state := plain 2, event := on 0, actions := [Name.fails],
               out_state := plain 2, internal_transition := true },
             rescue (plain 2)] with
          owner := 0, variant := Name.state 0, depth := 1 }
  size_pos := two_tables
  root_depth := by decide
  owner_lt := by decide
  depth_owner := by decide
  regions_pos := by decide
  variants := by decide
  in_composite := by decide
  out_composite := by decide

/-- A row of the table fails. -/
def guarded_region_run : Core sample :=
  final (guarded_region.process_event 5 ⟨Name.event 0, ()⟩)
    (guarded_region.new ())

theorem guarded_region_run_reached :
    Reaches guarded_region.toTables guarded_region_run :=
  (@Reaches.new sample guarded_region.toTables ()).process_event 5
    ⟨Name.event 0, ()⟩

/-- The region handles what the table in it has handled. -/
theorem guarded_region_run_twice :
    Reaches guarded_region.toTables guarded_region_run ∧
      ¬ Throughout guarded_region.Innermost guarded_region_run.trace :=
  ⟨guarded_region_run_reached, by decide +kernel⟩

theorem innermost_iff_abstains_guarded_region :
    Throughout guarded_region.Innermost guarded_region_run.trace ↔
      Throughout guarded_region.Abstains guarded_region_run.trace :=
  innermost_iff_abstains guarded_region_run_reached

end SmlRs.Macros
