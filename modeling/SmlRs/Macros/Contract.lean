/-
Module: SmlRs.Macros.Contract
Purpose: The rules that lift what the rows of a tree guarantee to its completion
  steps, its exception walks, its dispatches and its whole runs.
Trusted boundary: none
Main exports: Terms, Guarantees, Walks, Settles, Settles.stabilize, Answers,
  Contract, Contract.process_event, Keeps, Keeps.process_event,
  Reaches.invariant
-/
import SmlRs.Macros.Reach

namespace SmlRs.Macros

open Lib

variable {E : Environment}

/-!
A fault that rises from a row or its guard is caught where rows are tried: it is
offered to the exception rows, and it is out of the machine when none of them
handles it.
-/

/-- What holds of the core at the places where a run can stand. -/
structure Terms (E : Environment) where
  /-- Between two rows, and between two events. -/
  calm : Core E → Prop
  /-- So it is, behind a row that has handled the event. -/
  ran : Core E → Prop := calm
  /-- A fault is on its way to the place where it is caught. -/
  risen : Fault E → Core E → Prop
  /-- In a walk of the exception rows, before (`false`) or after (`true`) one of
  them has handled the error. -/
  walking : Nat → Bool → Core E → Prop
  /-- A fault is returned to the caller. -/
  out : Fault E → Core E → Prop

/-- The events of a machine are answered on these terms. -/
def Terms.Kept (terms : Terms E) (calls : Calls E) : Prop :=
  ∀ event, Triple terms.calm (calls.process_event event) (fun _ => terms.calm)
    terms.out

/-! ### Rows and arms -/

section Rows

variable {tree : Tables E} {calls : Calls E} {cause : Cause} {place : Slot}
  {pre post : Core E → Prop} {fail : Fault E → Core E → Prop}

/-- The rows of a slot, run for this cause. -/
structure Guarantees (tree : Tables E) (calls : Calls E) (cause : Cause)
    (place : Slot) (pre post : Core E → Prop)
    (fail : Fault E → Core E → Prop) : Prop where
  body : ∀ row, row ∈ tree.rows place row.in_state.ident → ∀ payload index,
    Triple pre (tree.row_body calls cause place row payload index)
      (fun _ => post) fail
  guard : ∀ core error, pre core →
    fail (.guard_failed error) (core.note (.raised cause))

/-- One row of an arm: it has run, or everything is as it was. -/
theorem Guarantees.branch
    (rows : Guarantees tree calls cause place pre post fail)
    (matched event_data : E.Data) (index : Nat) {row : StateTransition E}
    (declared : row ∈ tree.rows place row.in_state.ident) (handled : Bool) :
    Triple pre
      (tree.branch calls cause place matched event_data index row handled)
      (fun value core => value = true ∧ post core ∨ value = handled ∧ pre core)
      fail := by
  have checked (payload : Tables.Payload E) : Triple pre
      (tree.transition_code calls cause place row payload index handled)
      (fun value core =>
        value = true ∧ post core ∨ value = handled ∧ pre core) fail := by
    intro core before
    unfold Tables.transition_code marking
    rw [get_bind_run, bind_run]
    unfold marked
    cases Tables.row_condition row payload core.view.world index handled with
    | error error => exact rows.guard core error before
    | ok runs =>
      cases runs with
      | false => exact .inr ⟨rfl, before⟩
      | true =>
        have body := rows.body row declared payload index
        refine Triple.seq body (fun _ => ?_) core before
        exact Triple.returns fun _ after => .inl ⟨rfl, after⟩
  refine Triple.reads fun core => ?_
  refine Triple.strengthen ?_ fun _ start => start.2
  dsimp only
  split
  · split
    · exact checked _
    · exact Triple.returns fun _ before => .inr ⟨rfl, before⟩
  · exact checked _

/-- The rows of an arm, where a row that has run may be followed by others. -/
theorem run_arm_triple {cleared : Bool → Core E → Prop}
    (rows : ∀ handled, Guarantees tree calls cause place (cleared handled)
      (cleared true) fail) (matched event_data : E.Data)
    {arm : List (StateTransition E × Nat)}
    (declared : ∀ item ∈ arm, item.1 ∈ tree.rows place item.1.in_state.ident)
    (handled : Bool) :
    Triple (cleared handled)
      (tree.run_arm calls cause place matched event_data arm handled) cleared
      fail := by
  refine Triple.fold (fun handled item among => ?_) handled
  refine ((rows handled).branch matched event_data item.2
    (declared item among) handled).conseq (fun _ => id) ?_ fun _ _ => id
  rintro value core (⟨rfl, after⟩ | ⟨rfl, before⟩)
  · exact after
  · exact before

/-- One turn with an event. -/
theorem dispatch_code_triple {cleared : Bool → Core E → Prop} {serial : Nat}
    {event : Event E}
    (rows : ∀ handled, Guarantees tree calls (.event serial) place
      (cleared handled) (cleared true) fail)
    (turn : ∀ core, pre core →
      cleared false (core.note (.turn serial event place core.view)))
    (handled : ∀ core, cleared true core →
      cleared true (core.note (.handled serial place))) :
    Triple pre (tree.dispatch_code calls serial place event) cleared fail := by
  refine Triple.reads fun core => ?_
  refine @Triple.changes _ _ _ _ _ _ (cleared false) _ _ ?_ ?_
  · rintro _ ⟨rfl, before⟩
    exact turn _ before
  refine Triple.seq (run_arm_triple rows _ _ ?_ false) fun value => ?_
  · intro item among
    exact Tables.rows_of_source (Tables.mem_dispatch_arm among)
  cases value with
  | false => exact Triple.returns fun _ idle => idle
  | true =>
    exact Triple.changes handled (Triple.returns fun _ ran => ran)

/-- The rows of a completion arm. -/
theorem run_completions_triple
    (rows : Guarantees tree calls .completion place pre pre fail)
    (event_data : E.Data) {arm : List (StateTransition E)}
    (declared : ∀ row ∈ arm, row ∈ tree.rows place row.in_state.ident) :
    Triple pre (tree.run_completions calls place event_data arm)
      (fun _ => pre) fail := by
  refine Triple.reads fun core => ?_
  refine Triple.strengthen ?_ fun _ start => start.2
  dsimp only
  split
  · exact Triple.returns fun _ before => before
  refine @Triple.fold _ _ _ _ _ _ (fun _ => pre) _ (fun handled row among => ?_)
    false
  refine Triple.reads fun core => ?_
  refine Triple.strengthen ?_ fun _ start => start.2
  split
  · exact Triple.returns fun _ before => before
  refine (rows.branch _ event_data 0 (declared row among) handled).conseq
    (fun _ => id) ?_ fun _ _ => id
  rintro value core (⟨_, after⟩ | ⟨_, before⟩)
  · exact after
  · exact before

theorem completion_code_triple
    (rows : Guarantees tree calls .completion place pre pre fail)
    (origin : Option (Event E)) :
    Triple pre (tree.completion_code calls place origin) (fun _ => pre) fail := by
  refine Triple.seq (?_ : Triple _ _ (fun _ => pre) _) fun handled => ?_
  · cases origin with
    | none => exact Triple.returns fun _ before => before
    | some event =>
      refine Triple.reads fun core => ?_
      refine Triple.strengthen (run_completions_triple rows _ ?_)
        fun _ start => start.2
      intro row among
      exact Tables.rows_of_source (Tables.mem_origin_arm among)
  · split
    · exact Triple.returns fun _ before => before
    refine Triple.reads fun core => ?_
    refine Triple.strengthen (run_completions_triple rows _ ?_)
      fun _ start => start.2
    intro row among
    exact Tables.rows_of_source (Tables.mem_anonymous_arm among)

/-- One turn in a walk of the exception rows: none of them handles the error, or
one does. -/
theorem exception_code_triple {serial : Nat} {error : E.Data}
    {asked : Core E → Prop}
    (rows : Guarantees tree calls (.exception serial) place asked post fail)
    (turn : ∀ core, pre core →
      asked (core.note (.recovering serial error place core.view))) :
    Triple pre (tree.exception_code calls serial place error)
      (fun recovery => if recovery.isSome then post else asked) fail := by
  refine Triple.reads fun core => ?_
  refine @Triple.changes _ _ _ _ _ _ asked _ _ ?_ ?_
  · rintro _ ⟨rfl, before⟩
    exact turn _ before
  refine @Triple.fold _ _ _ _ _ _
    (fun recovery : Option Bool => if recovery.isSome then post else asked) _
    (fun recovery row among => ?_) none
  have declared := Tables.rows_of_source (Tables.mem_exception_arm among)
  cases recovery with
  | some moved => exact Triple.returns fun _ ran => ran
  | none =>
    refine Triple.seq (rows.branch _ error 0 declared false) fun handled => ?_
    refine Triple.returns ?_
    rintro after (⟨rfl, ran⟩ | ⟨rfl, before⟩)
    · exact ran
    · exact before

end Rows

/-! ### Walks of the exception rows -/

/-- The slots of a tree in the order of the exception walk. -/
def Tables.walk_order (tree : Tables E) : List Slot :=
  (tree.blocks ++ [0]).flatMap tree.slots

/-- A walk in its order: what holds behind the slots gone through, before
(`false`) and after (`true`) a row has handled the error.  A scalar table has its
turn only where none has. -/
structure Walks (tree : Tables E) (calls : Calls E) (serial : Nat)
    (error : E.Data) (walking : List Slot → Bool → Core E → Prop)
    (out : Fault E → Core E → Prop) : Prop where
  turn : ∀ front place back handled,
    tree.walk_order = front ++ place :: back →
    (handled = true → (tree.node place.node).orthogonal = true) →
      Triple (walking front handled)
        (tree.exception_code calls serial place error)
        (fun recovery => walking (front ++ [place])
          (handled || recovery.isSome)) out
  skip : ∀ front place handled core, walking front handled core →
    walking (front ++ [place]) handled core

/-- The slots of the walk are slots of the tree. -/
theorem Tree.placed_of_order {tree : Tree E} {front back : List Slot}
    {place : Slot} (split : tree.walk_order = front ++ place :: back) :
    tree.Placed place := by
  have inside : place ∈ tree.walk_order := by simp [split]
  obtain ⟨node, among, here⟩ := List.mem_flatMap.mp inside
  exact tree.placed_of_walk among here

namespace Walks

variable {tree : Tree E} {calls : Calls E} {serial : Nat} {error : E.Data}
  {walking : List Slot → Bool → Core E → Prop}
  {out : Fault E → Core E → Prop}
  (walks : Walks tree.toTables calls serial error walking out)
  (faulting_site : Nat)

include walks

theorem skip_all {front : List Slot} {handled : Bool} {core : Core E}
    (slots : List Slot) (holds : walking front handled core) :
    walking (front ++ slots) handled core := by
  induction slots generalizing front with
  | nil => simpa using holds
  | cons place slots ih =>
    have further := ih (walks.skip front place handled core holds)
    simpa using further

/-- The exception block of a table. -/
theorem node_recovery {nodes rest : List Nat} {node : Nat}
    (split : tree.blocks ++ [0] = nodes ++ node :: rest)
    (walk : Tables.Recovery) :
    Triple (walking (nodes.flatMap tree.slots) walk.recovery.isSome)
      (tree.node_recovery calls serial error faulting_site walk node)
      (fun walk => walking ((nodes ++ [node]).flatMap tree.slots)
        walk.recovery.isSome) out := by
  have order : tree.walk_order = nodes.flatMap tree.slots ++
      (tree.slots node ++ rest.flatMap tree.slots) := by
    unfold Tables.walk_order
    rw [split]
    simp
  have behind : (nodes ++ [node]).flatMap tree.slots =
      nodes.flatMap tree.slots ++ tree.slots node := by
    simp
  rw [behind]
  refine Triple.reads fun core => ?_
  refine Triple.strengthen ?_ fun _ start => start.2
  split
  · exact Triple.returns fun _ => walks.skip_all (tree.slots node)
  split_ifs with orthogonal root
  · have regions := @Triple.foldlM _ _ _ _
      (tree.region_recovery calls serial error faulting_site) out
      (fun front (walk : Tables.Recovery) =>
        walking (nodes.flatMap tree.slots ++ front) walk.recovery.isSome)
      (tree.slots node) ?_ walk
    · exact regions.strengthen fun core holds => by simpa using holds
    intro front place back walk inside
    have here : place ∈ tree.slots node := by simp [inside]
    obtain ⟨rfl, _⟩ := Tables.mem_slots.mp here
    have turn := walks.turn (nodes.flatMap tree.slots ++ front) place
      (back ++ rest.flatMap tree.slots) walk.recovery.isSome
      (by rw [order, inside]; simp) fun _ => orthogonal
    refine Triple.seq turn fun recovery => ?_
    cases recovery with
    | none =>
      exact Triple.returns fun _ holds => by simpa using holds
    | some moved =>
      exact Triple.returns fun _ holds => by simpa using holds
  all_goals
    have alone := @Tree.slots_of_scalar _ tree node
      (by rw [split]; simp) (by simpa using orthogonal)
    have first (unhandled : walk.recovery = none) :
        Triple (walking (nodes.flatMap tree.slots) walk.recovery.isSome)
          (tree.exception_code calls serial ⟨node, 0⟩ error)
          (fun recovery => walking
            (nodes.flatMap tree.slots ++ tree.slots node)
            recovery.isSome) out := by
      have turn := walks.turn (nodes.flatMap tree.slots) ⟨node, 0⟩
        (rest.flatMap tree.slots) walk.recovery.isSome
        (by rw [order, alone]; simp) (by simp [unhandled])
      simpa [unhandled, alone] using turn
  · subst root
    unfold Tables.root_recovery
    split
    · exact Triple.returns fun _ => walks.skip_all (tree.slots 0)
    · rename_i unhandled
      refine Triple.seq (first unhandled) fun recovery => ?_
      cases recovery with
      | none =>
        exact Triple.returns fun _ holds => by simpa [unhandled] using holds
      | some moved => exact Triple.returns fun _ holds => holds
  · unfold Tables.scalar_recovery
    split
    · exact Triple.returns fun _ => walks.skip_all (tree.slots node)
    · rename_i unhandled
      refine Triple.seq (first unhandled) fun recovery => ?_
      cases recovery with
      | none =>
        exact Triple.returns fun _ holds => by simpa [unhandled] using holds
      | some moved => exact Triple.returns fun _ holds => holds

theorem recovery_blocks :
    Triple (walking [] false)
      (tree.recovery_blocks calls serial error faulting_site)
      (fun walk => walking tree.walk_order walk.recovery.isSome) out :=
  @Triple.foldlM _ _ _ _
    (tree.node_recovery calls serial error faulting_site) out
    (fun nodes (walk : Tables.Recovery) =>
      walking (nodes.flatMap tree.slots) walk.recovery.isSome)
    (tree.blocks ++ [0])
    (fun _ _ _ walk split => walks.node_recovery faulting_site split walk)
    ⟨none, fun _ => false⟩

/-- A fault is offered to the exception rows. -/
theorem recover_walk {core : Core E} (numbered : core.serial = serial)
    (offered : walking [] false ({ core with serial := core.serial + 1 }.note
      (.offered core.serial))) :
    Triple (· = core) (tree.recover_walk calls error faulting_site)
      (fun walk => walking tree.walk_order walk.recovery.isSome) out := by
  rintro _ rfl
  unfold Tables.recover_walk
  rw [get_bind_run, set_bind_run, numbered]
  rw [numbered] at offered
  exact walks.recovery_blocks faulting_site _ offered

end Walks

/-! ### Completions, recovery and stabilization -/

/-- What the turns of a machine guarantee outside of its dispatches. -/
structure Settles (tree : Tables E) (calls : Calls E) (terms : Terms E) :
    Prop where
  completion : ∀ place, tree.Placed place → ∀ origin,
    Triple terms.calm (tree.completion_code calls place origin)
      (fun _ => terms.calm) terms.risen
  faulted : ∀ fault place core, terms.risen fault core →
    terms.risen fault (core.note (.faulted place))
  uncaught : ∀ fault core, fault.error = none ∨
    tree.has_exception_handlers = false → terms.risen fault core →
      terms.out fault core
  recover : ∀ fault error site, fault.error = some error →
    tree.has_exception_handlers = true →
      Triple (terms.risen fault) (tree.recover_walk calls error site)
        (fun walk => if walk.recovery.isSome then terms.calm
          else terms.out fault) terms.out
  recovered : ∀ moved core, terms.calm core →
    terms.calm (core.note (.recovered moved))
  diverged : ∀ core, terms.calm core → terms.out .diverged core

namespace Settles

variable {tree : Tree E} {calls : Calls E} {terms : Terms E}
  (settles : Settles tree.toTables calls terms)

include settles

theorem completion_step (origin : Option (Event E)) (settled : Nat → Bool) :
    Triple terms.calm (tree.completion_step calls origin settled)
      (fun _ => terms.calm) fun stopped => terms.risen stopped.2 := by
  refine @Triple.fold _ _ _ _ _ _ (fun _ => terms.calm) _
    (fun handled node among => ?_) false
  refine Triple.reads fun core => ?_
  refine Triple.strengthen ?_ fun _ start => start.2
  split
  · exact Triple.returns fun _ calm => calm
  refine @Triple.fold _ _ _ _ _ _ (fun _ => terms.calm) _
    (fun progressed place inside => ?_) false
  refine Triple.seq (?_ : Triple _ _ (fun _ => terms.calm) _)
    fun _ => Triple.returns fun _ calm => calm
  unfold Tables.completion_site
  split
  · exact Triple.returns fun _ calm => calm
  have placed := tree.placed_of_walk among inside
  refine Triple.tagged ((settles.completion place placed origin).conseq
    (fun _ => id) (fun _ _ => id) fun fault core risen => ?_)
  exact settles.faulted fault place core risen

/-- A fault is out of the machine, or an exception row has handled it. -/
theorem caught {α : Type} {fault : Fault E} {site : Nat}
    {next : Bool → Tables.Recovery → Effect E α} {post : α → Core E → Prop}
    (onward : ∀ moved walk, Triple terms.calm (next moved walk) post terms.out) :
    Triple (terms.risen fault)
      (match fault.error with
        | none => throw fault
        | some error =>
            if !tree.has_exception_handlers then throw fault
            else do
              let walk ← tree.recover_walk calls error site
              match walk.recovery with
              | none => throw fault
              | some moved => next moved walk) post terms.out := by
  split
  · rename_i failed
    exact Triple.throws fun core => settles.uncaught fault core (.inl failed)
  rename_i error failed
  split
  · rename_i handlers
    refine Triple.throws fun core => settles.uncaught fault core (.inr ?_)
    simpa using handlers
  rename_i handlers
  refine Triple.seq (settles.recover fault error site failed
    (by simpa using handlers)) fun walk => ?_
  cases walk.recovery with
  | none => exact Triple.throws fun core ends => ends
  | some moved => exact onward moved walk

theorem stabilize_loop (fuel : Nat) (origin : Option (Event E))
    (settled : Nat → Bool) :
    Triple terms.calm (tree.stabilize_loop calls fuel origin settled)
      (fun _ => terms.calm) terms.out := by
  induction fuel generalizing origin settled with
  | zero => exact Triple.throws settles.diverged
  | succ fuel ih =>
    refine Triple.attempted (settles.completion_step origin settled)
      (fun progressed => ?_) fun stopped => ?_
    · cases progressed with
      | false => exact Triple.returns fun _ calm => calm
      | true => exact ih origin settled
    · obtain ⟨site, fault⟩ := stopped
      refine settles.caught fun moved walk => ?_
      refine Triple.changes (settles.recovered moved) ?_
      dsimp only
      split
      · exact ih _ _
      split
      · exact ih _ _
      · exact Triple.returns fun _ calm => calm

theorem stabilize (origin : Option (Event E)) :
    Triple terms.calm (tree.stabilize calls origin) (fun _ => terms.calm)
      terms.out :=
  Triple.seq (settles.stabilize_loop calls.fuel origin _)
    fun _ => Triple.returns fun _ calm => calm

theorem dispatch_outcome (fault : Fault E) :
    Triple (terms.risen fault) (tree.dispatch_outcome calls (.error fault))
      (fun outcome core => outcome.1 = true ∧ terms.calm core) terms.out :=
  settles.caught fun _ _ => Triple.returns fun _ calm => ⟨rfl, calm⟩

/-- One event, dispatched from where `start` holds. -/
theorem run_event {start : Core E → Prop} {event : Event E}
    (refused : ∀ core, start core →
      E.dispatch core.view.world event.ident = false →
        terms.out .invalid_event core)
    (dispatch : ∀ core, start core →
      Triple (· = { core with serial := core.serial + 1 })
        (tree.parent_dispatch calls core.serial event)
        (fun handled core' => if handled then terms.calm core'
          else terms.out .invalid_event core') terms.risen) :
    Triple start (tree.run_event calls event) (fun _ => terms.calm)
      terms.out := by
  have attempted : Triple start (tree.dispatch_attempt calls event)
      (fun outcome core =>
        if outcome.1 then terms.calm core else terms.out .invalid_event core)
      terms.out := by
    intro core begins
    unfold Tables.dispatch_attempt
    rw [get_bind_run, set_bind_run]
    refine Triple.attempted (dispatch core begins) (fun handled => ?_)
      (fun fault => ?_) _ rfl
    · exact Triple.returns fun _ ends => ends
    · refine (settles.dispatch_outcome fault).conseq (fun _ => id) ?_
        fun _ _ => id
      intro outcome core ends
      rw [if_pos ends.1]
      exact ends.2
  refine Triple.reads fun core => ?_
  split
  · rename_i closed
    refine Triple.throws ?_
    rintro _ ⟨rfl, begins⟩
    exact refused _ begins (by simpa using closed)
  refine Triple.seq (attempted.strengthen fun _ begins => begins.2)
    fun outcome => ?_
  obtain ⟨handled, recovered⟩ := outcome
  cases handled with
  | true => exact settles.stabilize _
  | false => exact Triple.throws fun _ unhandled => unhandled

end Settles

/-! ### Dispatches -/

/-- The slots of a tree in the order of their turns with an event. -/
def Tables.dispatch_order (tree : Tables E) : List Slot :=
  if (tree.node 0).orthogonal then
    (tree.slots 0).flatMap fun place =>
      (tree.root_blocks place).flatMap tree.slots ++ [place]
  else tree.blocks.flatMap tree.slots ++ tree.slots 0

/-- A dispatch in its order: what holds behind the slots gone through, before
(`false`) and after (`true`) one of them has handled the event.  A slot is left
out where its table is not active, and may be left out behind one that has handled
the event.  Only the first slot of a table is sure to have its turn while the
table is active. -/
structure Offers (tree : Tables E) (calls : Calls E) (serial : Nat)
    (event : Event E) (active : Nat → Prop)
    (asked : List Slot → Bool → Core E → Prop)
    (fail : Fault E → Core E → Prop) : Prop where
  looks : ∀ front node core, asked front false core →
    tree.active core.view node = true → active node
  turn : ∀ front place back before, tree.Placed place →
    tree.dispatch_order = front ++ place :: back →
    (before = false → active place.node) →
      Triple (fun core => asked front before core ∧
          (place.region = 0 → tree.active core.view place.node = true))
        (tree.dispatch_code calls serial place event)
        (fun handled => asked (front ++ [place]) (before || handled)) fail
  skip : ∀ front place before core,
    before = true ∨ tree.active core.view place.node = false →
      asked front before core → asked (front ++ [place]) before core

namespace Offers

variable {tree : Tree E} {calls : Calls E} {serial : Nat} {event : Event E}
  {active : Nat → Prop} {asked : List Slot → Bool → Core E → Prop}
  {fail : Fault E → Core E → Prop}
  (offers : Offers tree.toTables calls serial event active asked fail)
  {front back : List Slot}

include offers

theorem skip_all {before : Bool} {core : Core E} (slots : List Slot)
    (left_out : before = true ∨
      ∀ place ∈ slots, tree.active core.view place.node = false)
    (holds : asked front before core) : asked (front ++ slots) before core := by
  induction slots generalizing front with
  | nil => simpa using holds
  | cons place slots ih =>
    have here : before = true ∨ tree.active core.view place.node = false :=
      left_out.imp_right fun each => each place (by simp)
    have rest : before = true ∨
        ∀ place ∈ slots, tree.active core.view place.node = false :=
      left_out.imp_right fun each other among => each other (by simp [among])
    have further := ih rest (offers.skip front place before core here holds)
    simpa using further

/-- The turn of a slot that is left out where the event is already handled. -/
theorem bubbles (front back : List Slot) {place : Slot}
    (placed : tree.Placed place)
    (split : tree.dispatch_order = front ++ place :: back)
    (before handled : Bool)
    (looked : (before || handled) = false → active place.node) :
    Triple (fun core => asked front (before || handled) core ∧
        (place.region = 0 → tree.active core.view place.node = true))
      (Tables.bubbles handled (tree.dispatch_code calls serial place event))
      (fun value => asked (front ++ [place]) (before || handled || value))
      fail := by
  unfold Tables.bubbles
  split_ifs with known
  · refine Triple.returns fun core holds => ?_
    rw [Bool.or_false]
    exact offers.skip front place _ core (.inl (by simp [known])) holds.1
  · exact offers.turn front place back _ placed split looked

omit offers in
/-- Between two child blocks, behind turns that may have handled the event. -/
def Blocks (asked : List Slot → Bool → Core E → Prop) (front : List Slot)
    (before : Bool) (flags : Tables.Flags) (core : Core E) : Prop :=
  asked front (before || flags.handled) core ∧
    ∀ node, flags.of_node node = true → flags.handled = true

omit offers in
theorem Blocks.of_descendant {before : Bool} {flags : Tables.Flags}
    {core : Core E} {place : Slot} (blocks : Blocks asked front before flags core)
    (seen : tree.descendant_handled flags.of_node place = true) :
    flags.handled = true := by
  unfold Tables.descendant_handled at seen
  rw [List.any_eq_true] at seen
  obtain ⟨node, _, flagged⟩ := seen
  rw [Bool.and_eq_true] at flagged
  exact blocks.2 node flagged.2

omit offers in
/-- The flags behind the block of a table. -/
theorem Blocks.update {flags : Tables.Flags} {handled : Bool}
    (set : ∀ node, flags.of_node node = true → flags.handled = true)
    (node other : Nat)
    (flagged : Function.update flags.of_node node handled other = true) :
    (flags.handled || handled) = true := by
  by_cases same : other = node
  · subst same
    have flag : handled = true := by simpa using flagged
    simp [flag]
  · have earlier := set other (by simpa [same] using flagged)
    simp [earlier]

theorem scalar_block {node : Nat} (placed : tree.Placed ⟨node, 0⟩)
    (split : tree.dispatch_order = front ++ ⟨node, 0⟩ :: back) (before : Bool)
    (flags : Tables.Flags) :
    Triple (Blocks asked front before flags)
      (tree.scalar_block calls serial event flags node)
      (Blocks asked (front ++ [⟨node, 0⟩]) before) fail := by
  intro core blocks
  have turn : Triple (asked front (before || flags.handled))
      (tree.scalar_turn calls serial event node)
      (fun handled => asked (front ++ [⟨node, 0⟩])
        (before || flags.handled || handled)) fail := by
    refine Triple.reads fun core => ?_
    split
    · rename_i awake
      rintro _ ⟨rfl, holds⟩
      refine offers.turn front ⟨node, 0⟩ back _ placed split ?_ _
        ⟨holds, fun _ => awake⟩
      intro unhandled
      rw [unhandled] at holds
      exact offers.looks front node _ holds awake
    · rename_i asleep
      refine Triple.returns ?_
      rintro _ ⟨rfl, holds⟩
      rw [Bool.or_false]
      exact offers.skip front ⟨node, 0⟩ _ _ (.inr (by simpa using asleep)) holds
  refine Triple.seq turn (fun handled => Triple.returns fun after asked => ?_)
    core blocks.1
  exact ⟨by simpa [Bool.or_assoc] using asked,
    fun other => Blocks.update blocks.2 node other⟩

theorem orthogonal_block {node : Nat}
    (placed : ∀ place ∈ tree.slots node, tree.Placed place)
    (split : tree.dispatch_order = front ++ (tree.slots node ++ back))
    (before : Bool) (flags : Tables.Flags) :
    Triple (Blocks asked front before flags)
      (tree.orthogonal_block calls serial event flags node)
      (Blocks asked (front ++ tree.slots node) before) fail := by
  refine Triple.reads fun core => ?_
  split
  · rename_i awake
    rintro start ⟨rfl, blocks⟩
    have looked (unhandled : (before || flags.handled) = false) :
        active node := by
      have holds := blocks.1
      rw [unhandled] at holds
      exact offers.looks front node _ holds awake
    have regions : Triple
        (fun core => core = start ∧ asked front (before || flags.handled) core)
        (tree.region_blocks calls serial event flags.of_node node)
        (fun value => asked (front ++ tree.slots node)
          (before || flags.handled || value)) fail := by
      -- The core is still the one that was looked at before the first region.
      have loop := @Triple.foldlM _ _ _ _
        (tree.region_block calls serial event flags.of_node) fail
        (fun gone value core => asked (front ++ gone)
            (before || flags.handled || value) core ∧
          (gone = [] → tree.active core.view node = true))
        (tree.slots node) ?_ false
      · refine loop.conseq ?_ (fun _ _ ends => ends.1) fun _ _ => id
        rintro _ ⟨rfl, holds⟩
        exact ⟨by simpa using holds, fun _ => awake⟩
      intro gone place left value inside
      have here : place ∈ tree.slots node := by simp [inside]
      have first (start : place.region = 0) : gone = [] :=
        Tables.slots_first inside start
      have turn := offers.bubbles (front ++ gone) (left ++ back)
        (placed place here) (by rw [split, inside]; simp)
        (before || flags.handled || value)
        (tree.descendant_handled flags.of_node place) ?_
      · refine (Triple.seq turn fun handled => Triple.returns fun _ asked => ?_
          ).strengthen ?_
        · exact ⟨by simpa [Bool.or_assoc] using asked, by simp⟩
        · rintro core ⟨asked, looked⟩
          constructor
          · cases seen : tree.descendant_handled flags.of_node place with
            | false => simpa using asked
            | true => simpa [blocks.of_descendant seen] using asked
          · intro start
            rw [(Tables.mem_slots.mp here).1]
            exact looked (first start)
      · intro unhandled
        rw [(Tables.mem_slots.mp here).1]
        simp only [Bool.or_eq_false_iff] at unhandled
        exact looked (by simp [unhandled.1.1])
    refine Triple.seq regions (fun value => Triple.returns fun after asked => ?_)
      _ ⟨rfl, blocks.1⟩
    exact ⟨by simpa [Bool.or_assoc] using asked,
      fun other => Blocks.update blocks.2 node other⟩
  · rename_i asleep
    refine Triple.returns ?_
    rintro core ⟨rfl, blocks⟩
    constructor
    · refine offers.skip_all _ (.inr fun place here => ?_) blocks.1
      rw [(Tables.mem_slots.mp here).1]
      simpa using asleep
    · intro other flagged
      simpa using Blocks.update blocks.2 node other flagged

/-- Child blocks in the order of their list. -/
theorem dispatch_blocks (front back : List Slot) {nodes : List Nat}
    (inside : ∀ node ∈ nodes, 0 < node ∧ node < tree.size)
    (split : tree.dispatch_order = front ++ (nodes.flatMap tree.slots ++ back))
    (before : Bool) (flags : Tables.Flags) :
    Triple (Blocks asked front before flags)
      (tree.dispatch_blocks calls serial event nodes flags)
      (Blocks asked (front ++ nodes.flatMap tree.slots) before) fail := by
  have loop := @Triple.foldlM _ _ _ _ (tree.child_block calls serial event) fail
    (fun gone => Blocks asked (front ++ gone.flatMap tree.slots) before) nodes
    ?_ flags
  · exact loop.strengthen fun _ holds => by simpa using holds
  intro gone node left flags among
  have lies := inside node (by simp [among])
  have placed (place : Slot) (here : place ∈ tree.slots node) :
      tree.Placed place := by
    obtain ⟨rfl, region⟩ := Tables.mem_slots.mp here
    exact ⟨lies.2, region⟩
  have order : tree.dispatch_order = (front ++ gone.flatMap tree.slots) ++
      (tree.slots node ++ (left.flatMap tree.slots ++ back)) := by
    rw [split, among]
    simp
  have behind : front ++ (gone ++ [node]).flatMap tree.slots =
      (front ++ gone.flatMap tree.slots) ++ tree.slots node := by
    simp
  rw [behind]
  unfold Tables.child_block
  split
  · exact offers.orthogonal_block placed order before flags
  · rename_i scalar
    have alone := @Tree.slots_of_scalar _ tree node
      (by simp [Tables.mem_blocks, lies]) (by simpa using scalar)
    rw [alone] at order placed ⊢
    exact offers.scalar_block (placed _ (by simp)) order before flags

/-- A whole dispatch. -/
theorem parent_dispatch :
    Triple (asked [] false) (tree.parent_dispatch calls serial event)
      (fun handled => asked tree.dispatch_order handled) fail := by
  have root (place : Slot) (here : place ∈ tree.slots 0) : tree.Placed place := by
    obtain ⟨node, region⟩ := Tables.mem_slots.mp here
    refine ⟨?_, by rwa [node]⟩
    rw [node]
    exact tree.size_pos
  have always (core : Core E) : tree.active core.view 0 = true := by
    unfold Tables.active
    rw [tree.root_depth]
    rfl
  unfold Tables.parent_dispatch
  split
  · rename_i orthogonal
    have order : tree.dispatch_order = (tree.slots 0).flatMap fun place =>
        (tree.root_blocks place).flatMap tree.slots ++ [place] :=
      if_pos orthogonal
    have loop := @Triple.foldlM _ _ _ _ (tree.root_region calls serial event)
      fail (fun gone any => asked (gone.flatMap fun place =>
        (tree.root_blocks place).flatMap tree.slots ++ [place]) any)
      (tree.slots 0) ?_ false
    · rw [order]
      exact loop
    intro gone place left any among
    have here : place ∈ tree.slots 0 := by simp [among]
    have inside (node : Nat) (among : node ∈ tree.root_blocks place) :
        0 < node ∧ node < tree.size :=
      Tables.mem_blocks.mp (List.mem_of_mem_filter among)
    generalize gone_eq : (gone.flatMap fun place =>
      (tree.root_blocks place).flatMap tree.slots ++ [place]) = front
    have split : tree.dispatch_order = front ++
        ((tree.root_blocks place).flatMap tree.slots ++ place ::
          left.flatMap fun place =>
            (tree.root_blocks place).flatMap tree.slots ++ [place]) := by
      rw [order, among, ← gone_eq]
      simp
    have behind : ((gone ++ [place]).flatMap fun place =>
        (tree.root_blocks place).flatMap tree.slots ++ [place]) =
          front ++ (tree.root_blocks place).flatMap tree.slots ++ [place] := by
      rw [← gone_eq]
      simp
    rw [behind]
    intro core asked
    refine Triple.seq (offers.dispatch_blocks front _ inside split any _)
      (fun flags => ?_) core ⟨by simpa using asked, by simp⟩
    intro core blocks
    refine Triple.seq (offers.bubbles _ _ (root place here)
      (split.trans (List.append_assoc front _ _).symm) any flags.handled ?_)
      (fun handled => Triple.returns fun _ asked => asked) core
      ⟨blocks.1, fun _ => (Tables.mem_slots.mp here).1 ▸ always core⟩
    intro unhandled
    have holds := blocks.1
    rw [unhandled] at holds
    rw [(Tables.mem_slots.mp here).1]
    exact offers.looks _ 0 core holds (always core)
  · rename_i scalar
    have alone :=
      @Tree.slots_of_scalar _ tree 0 (by simp) (by simpa using scalar)
    have order : tree.dispatch_order =
        tree.blocks.flatMap tree.slots ++ [⟨0, 0⟩] := by
      rw [← alone]
      exact if_neg scalar
    intro core asked
    refine Triple.seq (offers.dispatch_blocks [] [⟨0, 0⟩]
      (fun node => Tables.mem_blocks.mp) (by rw [order]; rfl) false _)
      (fun flags => ?_) core ⟨by simpa using asked, by simp⟩
    rw [order]
    intro core blocks
    have turn := offers.bubbles (tree.blocks.flatMap tree.slots) []
      (root ⟨0, 0⟩ (by simp [alone])) order false flags.handled ?_ core
      ⟨by simpa using blocks.1, fun _ => always core⟩
    · cases handled : flags.handled with
      | true =>
        rw [handled] at turn
        exact turn
      | false =>
        rw [handled] at turn
        exact turn
    · intro unhandled
      have holds := blocks.1
      rw [unhandled] at holds
      exact offers.looks _ 0 core holds (always core)

end Offers

/-- What every turn of a dispatch guarantees, before (`false`) and after (`true`)
a table or region has handled the event. -/
def Answers (tree : Tables E) (calls : Calls E) (serial : Nat) (event : Event E)
    (asked : Bool → Core E → Prop) (fail : Fault E → Core E → Prop) : Prop :=
  ∀ place, tree.Placed place → ∀ before,
    Triple (asked before) (tree.dispatch_code calls serial place event)
      (fun handled => asked (before || handled)) fail

theorem Answers.parent_dispatch {tree : Tree E} {calls : Calls E}
    {serial : Nat} {event : Event E} {asked : Bool → Core E → Prop}
    {fail : Fault E → Core E → Prop}
    (answers : Answers tree.toTables calls serial event asked fail) :
    Triple (asked false) (tree.parent_dispatch calls serial event) asked
      fail := by
  have offers : Offers tree.toTables calls serial event (fun _ => True)
      (fun _ => asked) fail :=
    { looks := fun _ _ _ _ _ => trivial
      turn := fun _ place _ before placed _ _ =>
        (answers place placed before).strengthen fun _ holds => holds.1
      skip := fun _ _ _ _ _ holds => holds }
  exact offers.parent_dispatch

/-! ### Whole runs -/

/-- What a machine guarantees, given that the events it raises are answered on
its own terms. -/
structure Contract (tree : Tree E) {ι : Type} (terms : ι → Terms E) : Prop where
  settles : ∀ calls, (∀ i, (terms i).Kept calls) →
    ∀ i, Settles tree.toTables calls (terms i)
  dispatch : ∀ calls, (∀ i, (terms i).Kept calls) →
    ∀ i event core, (terms i).calm core →
      Triple (· = { core with serial := core.serial + 1 })
        (tree.parent_dispatch calls core.serial event)
        (fun _ => (terms i).calm) (terms i).risen
  returned : ∀ i fault core, fault.error = none → (terms i).calm core →
    (terms i).out fault core
  put : ∀ i core event, (terms i).calm core →
    core.pending.length < tree.capacity →
      (terms i).calm { core with pending := event :: core.pending }
  dequeued : ∀ i core event rest, (terms i).calm core →
    core.pending = event :: rest →
      (terms i).calm ({ core with pending := rest }.note
        (.dequeued event rest core.view))
  failed : ∀ i fault core, (terms i).out fault core →
    (terms i).out fault (core.note .failed)

namespace Contract

variable {tree : Tree E} {ι : Type} {terms : ι → Terms E}
  (contract : Contract tree terms)

include contract

section Calls

variable {calls : Calls E} (kept : ∀ i, (terms i).Kept calls) (i : ι)

include kept

theorem run_event (event : Event E) :
    Triple (terms i).calm (tree.run_event calls event) (fun _ => (terms i).calm)
      (terms i).out := by
  refine (contract.settles calls kept i).run_event
    (fun core calm _ => contract.returned i .invalid_event core rfl calm)
    fun core calm => ?_
  refine (contract.dispatch calls kept i event core calm).conseq (fun _ => id)
    ?_ fun _ _ => id
  intro handled core' ends
  cases handled with
  | true => exact ends
  | false => exact contract.returned i .invalid_event core' rfl ends

theorem run_pending (fuel : Nat) :
    Triple (terms i).calm (tree.run_pending calls fuel)
      (fun _ => (terms i).calm) (terms i).out := by
  induction fuel with
  | zero => exact Triple.throws (contract.settles calls kept i).diverged
  | succ fuel ih =>
    intro core calm
    unfold Tables.run_pending
    rw [get_bind_run]
    cases waiting : core.pending with
    | nil => exact calm
    | cons event rest =>
      dsimp only
      rw [set_bind_run]
      have taken := contract.dequeued i core event rest calm waiting
      have dispatched : Triple (terms i).calm
          (marking (fun _ => .failed) (tree.run_event calls event))
          (fun _ => (terms i).calm) (terms i).out :=
        Triple.marked ((contract.run_event kept i event).conseq (fun _ => id)
          (fun _ _ => id) fun fault core => contract.failed i fault core)
      exact Triple.seq dispatched (fun _ => ih) _ taken

end Calls

/-- Every event is answered on these terms. -/
theorem process_event (i : ι) (fuel : Nat) (event : Event E) :
    Triple (terms i).calm (tree.process_event fuel event)
      (fun _ => (terms i).calm) (terms i).out := by
  induction fuel generalizing i event with
  | zero => exact Triple.throws fun core => contract.returned i .diverged core rfl
  | succ fuel ih =>
    unfold Tables.process_event
    dsimp only
    have kept (i : ι) : (terms i).Kept ⟨tree.process_event fuel, fuel⟩ :=
      fun event => ih i event
    split
    · refine Triple.seq ?_ fun _ => contract.run_pending kept i fuel
      intro core calm
      unfold process
      rw [get_bind_run]
      by_cases room : core.pending.length < tree.capacity
      · rw [if_pos room]
        exact contract.put i core event calm room
      · rw [if_neg room]
        exact contract.returned i .queue_full core rfl calm
    · exact contract.run_event kept i event

/-- So is the rest of a call that has begun with something else. -/
theorem stabilize (i : ι) (fuel : Nat) (origin : Option (Event E)) :
    Triple (terms i).calm
      (tree.stabilize ⟨tree.process_event fuel, fuel⟩ origin)
      (fun _ => (terms i).calm) (terms i).out :=
  (contract.settles _ (fun i event => contract.process_event i fuel event)
    i).stabilize origin

end Contract

/-! ### Relations that a machine keeps -/

/-- A relation that the rows of completions and exceptions stay within, and the
dispatch of an event. -/
structure Keeps (tree : Tables E) (rel : Core E → Core E → Prop) : Prop extends
    Quiet rel where
  completion : ∀ calls, (∀ event, Within rel (calls.process_event event)) →
    ∀ place, tree.Placed place → Bodies tree rel calls .completion place
  recover : ∀ calls, (∀ event, Within rel (calls.process_event event)) →
    ∀ error site, Within rel (tree.recover_walk calls error site)
  dispatch : ∀ calls, (∀ event, Within rel (calls.process_event event)) →
    ∀ event core, rel core
      (final (tree.parent_dispatch calls core.serial event)
        { core with serial := core.serial + 1 })

/-- The terms of a relation: the core can be reached from where a run began. -/
def within_terms (rel : Core E → Core E → Prop) (base : Core E) : Terms E where
  calm := rel base
  risen _ := rel base
  walking _ _ := rel base
  out _ := rel base

theorem Bodies.guarantees {tree : Tables E} {rel : Core E → Core E → Prop}
    {calls : Calls E} {cause : Cause} {place : Slot} (quiet : Quiet rel)
    (bodies : Bodies tree rel calls cause place) (base : Core E) :
    Guarantees tree calls cause place (rel base) (rel base)
      fun _ => rel base where
  body row declared payload index :=
    (bodies row declared payload index).triple
      fun moved reached => quiet.frame.trans reached moved
  guard core _ reached :=
    quiet.frame.trans reached (quiet.outer core _ trivial)

/-- One turn in a walk of the exception rows, if it may be noted. -/
theorem exception_code_within {tree : Tables E}
    {rel : Core E → Core E → Prop} {calls : Calls E} {serial : Nat}
    {place : Slot} {error : E.Data} (quiet : Quiet rel)
    (bodies : Bodies tree rel calls (.exception serial) place)
    (noted : ∀ core, rel core
      (core.note (.recovering serial error place core.view))) :
    Within rel (tree.exception_code calls serial place error) := by
  refine Within.of_triples quiet.frame.refl fun base => ?_
  refine (exception_code_triple (bodies.guarantees quiet base) fun core reached =>
    quiet.frame.trans reached (noted core)).conseq (fun _ => id) ?_ fun _ _ => id
  intro recovery core reached
  cases recovery with
  | none => exact reached
  | some moved => exact reached

/-- A dispatch whose rows stay within a relation. -/
theorem dispatch_within {tree : Tree E} {rel : Core E → Core E → Prop}
    {calls : Calls E} (quiet : Quiet rel)
    (counted : ∀ core, rel core { core with serial := core.serial + 1 })
    (turn : ∀ serial event place core,
      rel core (core.note (.turn serial event place core.view)))
    (handled : ∀ serial place core,
      rel core (core.note (.handled serial place)))
    (bodies : ∀ serial place, tree.Placed place →
      Bodies tree.toTables rel calls (.event serial) place)
    (event : Event E) (core : Core E) :
    rel core (final (tree.parent_dispatch calls core.serial event)
      { core with serial := core.serial + 1 }) := by
  have answers : Answers tree.toTables calls core.serial event
      (fun _ => rel core) fun _ => rel core := by
    intro place placed before
    refine @dispatch_code_triple _ _ _ _ _ _ (fun _ => rel core) _ _ ?_ ?_ ?_
    · exact fun _ => (bodies core.serial place placed).guarantees quiet core
    · exact fun _ reached => quiet.frame.trans reached (turn _ _ _ _)
    · exact fun _ reached => quiet.frame.trans reached (handled _ _ _)
  have start := counted core
  unfold final
  cases run : tree.parent_dispatch calls core.serial event
      { core with serial := core.serial + 1 } with
  | ok value core' => exact answers.parent_dispatch.ok start run
  | error fault core' => exact answers.parent_dispatch.error start run

/-- A walk whose turns stay within a relation. -/
theorem recover_walk_within {tree : Tree E} {rel : Core E → Core E → Prop}
    {calls : Calls E} (frame : Frame rel)
    (offered : ∀ core, rel core ({ core with serial := core.serial + 1 }.note
      (.offered core.serial)))
    (turn : ∀ serial place error, tree.Placed place →
      Within rel (tree.exception_code calls serial place error))
    (error : E.Data) (site : Nat) :
    Within rel (tree.recover_walk calls error site) := by
  apply Within.of_triples frame.refl
  intro base core reached
  have walks : Walks tree.toTables calls core.serial error
      (fun _ _ => rel base) fun _ => rel base :=
    { turn := fun _ place _ _ split _ =>
        (turn core.serial place error (tree.placed_of_order split)).triple
          fun moved reached => frame.trans reached moved
      skip := fun _ _ _ _ reached => reached }
  exact walks.recover_walk site rfl (frame.trans reached (offered core)) core rfl

namespace Keeps

variable {tree : Tree E} {rel : Core E → Core E → Prop}
  (keeps : Keeps tree.toTables rel)

include keeps

theorem nested {calls : Calls E}
    (kept : ∀ base, (within_terms rel base).Kept calls) (event : Event E) :
    Within rel (calls.process_event event) :=
  Within.of_triples keeps.frame.refl fun base => kept base event

theorem settles {calls : Calls E}
    (nested : ∀ event, Within rel (calls.process_event event)) (base : Core E) :
    Settles tree.toTables calls (within_terms rel base) where
  completion place placed origin :=
    completion_code_triple ((keeps.completion calls nested place
      placed).guarantees keeps.toQuiet base) origin
  faulted _ _ core reached :=
    keeps.frame.trans reached (keeps.outer core _ trivial)
  uncaught _ _ _ reached := reached
  recover _ error site _ _ := by
    have walk : Triple (rel base) (tree.recover_walk calls error site)
        (fun _ => rel base) fun _ => rel base :=
      (keeps.recover calls nested error site).triple
        fun moved reached => keeps.frame.trans reached moved
    refine walk.conseq (fun _ => id) (fun walk core reached => ?_) fun _ _ => id
    split
    · exact reached
    · exact reached
  recovered _ core reached :=
    keeps.frame.trans reached (keeps.outer core _ trivial)
  diverged _ reached := reached

theorem contract : Contract tree (within_terms rel) where
  settles calls kept base := keeps.settles (keeps.nested kept) base
  dispatch calls kept base event core reached := by
    have moved := keeps.dispatch calls (keeps.nested kept) event core
    rintro _ rfl
    unfold final at moved
    cases run : tree.parent_dispatch calls core.serial event
        { core with serial := core.serial + 1 } with
    | ok handled core' =>
      rw [run] at moved
      exact keeps.frame.trans reached moved
    | error fault core' =>
      rw [run] at moved
      exact keeps.frame.trans reached moved
  returned _ _ _ _ reached := reached
  put _ core _ reached _ := keeps.frame.trans reached (keeps.pending core _)
  dequeued _ core event rest reached _ :=
    keeps.frame.trans reached (keeps.frame.trans (keeps.pending core rest)
      (keeps.outer _ _ trivial))
  failed _ _ core reached :=
    keeps.frame.trans reached (keeps.outer core _ trivial)

/-- What rows and dispatches keep, every event keeps. -/
theorem process_event (fuel : Nat) (event : Event E) :
    Within rel (tree.process_event fuel event) :=
  Within.of_triples keeps.frame.refl
    fun base => keeps.contract.process_event base fuel event

theorem stabilize (fuel : Nat) (origin : Option (Event E)) :
    Within rel (tree.stabilize ⟨tree.process_event fuel, fuel⟩ origin) :=
  Within.of_triples keeps.frame.refl
    fun base => keeps.contract.stabilize base fuel origin

end Keeps

/-- An invariant of a machine: it holds of a new and of an initialized one and is
carried over by a relation that the machine keeps. -/
theorem Reaches.invariant {tree : Tree E} {rel : Core E → Core E → Prop}
    {holds : Core E → Prop} (keeps : Keeps tree.toTables rel)
    (carried : ∀ {core core'}, rel core core' → holds core → holds core')
    (fresh : ∀ world, holds (tree.new world))
    (entered : ∀ world, holds (final tree.initial_entries (tree.new world)))
    {core : Core E} (reached : Reaches tree.toTables core) : holds core := by
  induction reached with
  | new world => exact fresh world
  | initialize_unlocked world fuel =>
    unfold Tables.initialize_unlocked final
    have settles := keeps.stabilize fuel none
    have entry := entered world
    unfold final at entry
    rw [bind_run]
    cases run : tree.initial_entries (tree.new world) with
    | ok value mid =>
      rw [run] at entry
      exact carried (settles.final mid) entry
    | error fault mid =>
      rw [run] at entry
      exact entry
  | process_event reached fuel event ih =>
    exact carried ((keeps.process_event fuel event).final _) ih
  | context reached world ih => exact carried (keeps.world _ world) ih

end SmlRs.Macros
