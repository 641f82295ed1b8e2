/-
Module: SmlRs.Utility.EventQueues
Purpose: `EventQueues::dispatch` of `src/utility.rs` with a callback that defers
  and processes events while both queues are drained, and what becomes of every
  event.
Trusted boundary: none
Main exports: DispatchStatus, DispatchSummary, Body, EventQueues.dispatch,
  Dispatched, dispatch_dispatched
-/
import Mathlib.Data.List.Perm.Basic
import SmlRs.Utility.EventQueue

namespace SmlRs.Utility

/-- Result reported by a queued dispatch callback. -/
structure DispatchStatus where
  handled : Bool := false
  transitioned : Bool := false

def DispatchStatus.default : DispatchStatus := {}

/-- Aggregate result of an external dispatch and the queue work it triggered. -/
structure DispatchSummary where
  dispatched : Nat := 0
  handled : Nat := 0
  transitioned : Nat := 0

def DispatchSummary.record (summary : DispatchSummary)
    (status : DispatchStatus) : DispatchSummary where
  dispatched := saturatingAdd summary.dispatched 1
  handled := saturatingAdd summary.handled status.handled.toNat
  transitioned := saturatingAdd summary.transitioned status.transitioned.toNat

/-- Separate bounded queues for deferred events and events requested by
actions. -/
structure EventQueues (E : Type) (D P : Nat) where
  deferred : EventQueue E D
  processed : EventQueue E P

/-- What a callback does with the queues it borrows, up to its return. -/
inductive Body (M E : Type) where
  | ret (machine : M) (status : DispatchStatus)
  /-- `queues.defer(event)`; whether it was `Ok` decides how the body goes on. -/
  | defer (event : E) (next : Bool → Body M E)
  | process (event : E) (next : Bool → Body M E)
  | deferred_len (next : Nat → Body M E)
  | processed_len (next : Nat → Body M E)

/-- The dispatch callback, for what the machine holds and an event. -/
abbrev Callback (M E : Type) := M → E → Body M E

/-- Where an event that is offered to the callback comes from. -/
inductive Source where
  | submitted
  | processed
  | deferred
deriving DecidableEq

/-- What happens in a call. No code reads it. -/
inductive Entry (E : Type) where
  | offered (source : Source) (event : E)
  | answered (status : DispatchStatus)
  | deferred (event : E)
  | processed (event : E)

/-- The machine and the queues, with the record of the call, oldest first. -/
structure World (M E : Type) (D P : Nat) where
  machine : M
  queues : EventQueues E D P
  record : List (Entry E) := []

section Call

variable {M E : Type} {D P : Nat}

def World.note (world : World M E D P) (entry : Entry E) : World M E D P :=
  { world with record := world.record ++ [entry] }

def World.set_deferred (world : World M E D P) (queue : EventQueue E D) :
    World M E D P :=
  { world with queues := { world.queues with deferred := queue } }

def World.set_processed (world : World M E D P) (queue : EventQueue E P) :
    World M E D P :=
  { world with queues := { world.queues with processed := queue } }

/-- Runs the body of a callback. -/
def Body.run : Body M E → World M E D P → World M E D P × DispatchStatus
  | .ret machine status, world =>
      ({ world with machine := machine }.note (.answered status), status)
  | .defer event next, world =>
      match world.queues.deferred.defer event with
      | none => (next false).run world
      | some queue =>
          (next true).run ((world.set_deferred queue).note (.deferred event))
  | .process event next, world =>
      match world.queues.processed.process event with
      | none => (next false).run world
      | some queue =>
          (next true).run ((world.set_processed queue).note (.processed event))
  | .deferred_len next, world => (next world.queues.deferred.len).run world
  | .processed_len next, world => (next world.queues.processed.len).run world

/-- One call of the callback. -/
def offer (dispatch : Callback M E) (source : Source) (event : E)
    (world : World M E D P) : World M E D P × DispatchStatus :=
  (dispatch world.machine event).run (world.note (.offered source event))

/-- `drain_processed`, cut short (`none`) behind `fuel` events. -/
def drain_processed (dispatch : Callback M E) :
    Nat → World M E D P → DispatchSummary →
      Option (World M E D P × DispatchSummary)
  | 0, _, _ => none
  | fuel + 1, world, summary =>
      match world.queues.processed.pop with
      | none => some (world, summary)
      | some (event, queue) =>
          let (world, status) := offer dispatch .processed event
            (world.set_processed queue)
          drain_processed dispatch fuel world (summary.record status)

/-- The retries of `dispatch`. -/
def retry_deferred (dispatch : Callback M E) (fuel : Nat) :
    Nat → World M E D P → DispatchSummary →
      Option (World M E D P × DispatchSummary)
  | 0, world, summary => some (world, summary)
  | retries + 1, world, summary =>
      match world.queues.deferred.pop with
      | none => retry_deferred dispatch fuel retries world summary
      | some (event, queue) => do
          let (world, status) := offer dispatch .deferred event
            (world.set_deferred queue)
          let (world, summary) ←
            drain_processed dispatch fuel world (summary.record status)
          retry_deferred dispatch fuel retries world summary

/-- `EventQueues::dispatch`, whose loops are cut short (`none`) behind `fuel`
events each. -/
def EventQueues.dispatch (queues : EventQueues E D P) (machine : M) (event : E)
    (dispatch : Callback M E) (fuel : Nat) :
    Option (World M E D P × DispatchSummary) := do
  let (world, initial) := offer dispatch .submitted event
    { machine := machine, queues := queues }
  let (world, summary) ←
    drain_processed dispatch fuel world (({} : DispatchSummary).record initial)
  if summary.transitioned > 0 then
    retry_deferred dispatch fuel world.queues.deferred.len world summary
  else some (world, summary)

end Call

/-! ### Reading the record -/

section Record

variable {E : Type}

/-- The events that were offered to the callback. -/
def offered (record : List (Entry E)) : List E :=
  record.filterMap fun
    | .offered _ event => some event
    | _ => none

/-- Those of them that were taken from the deferred queue. -/
def retried (record : List (Entry E)) : List E :=
  record.filterMap fun
    | .offered .deferred event => some event
    | _ => none

/-- The events that were deferred with success. -/
def deferrals (record : List (Entry E)) : List E :=
  record.filterMap fun
    | .deferred event => some event
    | _ => none

/-- The events that were put into the process queue with success. -/
def requests (record : List (Entry E)) : List E :=
  record.filterMap fun
    | .processed event => some event
    | _ => none

def statuses (record : List (Entry E)) : List DispatchStatus :=
  record.filterMap fun
    | .answered status => some status
    | _ => none

variable (first second : List (Entry E))

@[simp] theorem offered_append :
    offered (first ++ second) = offered first ++ offered second :=
  List.filterMap_append

@[simp] theorem retried_append :
    retried (first ++ second) = retried first ++ retried second :=
  List.filterMap_append

@[simp] theorem deferrals_append :
    deferrals (first ++ second) = deferrals first ++ deferrals second :=
  List.filterMap_append

@[simp] theorem requests_append :
    requests (first ++ second) = requests first ++ requests second :=
  List.filterMap_append

@[simp] theorem statuses_append :
    statuses (first ++ second) = statuses first ++ statuses second :=
  List.filterMap_append

variable (source : Source) (event : E) (record : List (Entry E))

@[simp] theorem offered_cons :
    offered (.offered source event :: record) = event :: offered record := rfl

@[simp] theorem retried_cons_deferred :
    retried (.offered .deferred event :: record) = event :: retried record := rfl

@[simp] theorem retried_cons_processed :
    retried (.offered .processed event :: record) = retried record := rfl

@[simp] theorem retried_cons_submitted :
    retried (.offered .submitted event :: record) = retried record := rfl

@[simp] theorem deferrals_cons_offered :
    deferrals (.offered source event :: record) = deferrals record := rfl

@[simp] theorem requests_cons_offered :
    requests (.offered source event :: record) = requests record := rfl

@[simp] theorem statuses_cons_offered :
    statuses (.offered source event :: record) = statuses record := rfl

end Record

/-! ### Counting -/

/-- What the summary has to be: the numbers of calls of the callback and of
handled and transitioned statuses. -/
def counts (statuses : List DispatchStatus) : DispatchSummary where
  dispatched := statuses.length
  handled := statuses.countP (·.handled)
  transitioned := statuses.countP (·.transitioned)

/-- The counters stop at the largest `usize`. -/
def DispatchSummary.saturated (summary : DispatchSummary) : DispatchSummary where
  dispatched := min summary.dispatched usizeMax
  handled := min summary.handled usizeMax
  transitioned := min summary.transitioned usizeMax

theorem saturated_record (before : List DispatchStatus)
    (status : DispatchStatus) :
    (counts before).saturated.record status =
      (counts (before ++ [status])).saturated := by
  unfold DispatchSummary.record DispatchSummary.saturated counts
  obtain ⟨handled, transitioned⟩ := status
  simp only [saturatingAdd_min, List.length_append, List.length_singleton,
    List.countP_append, DispatchSummary.mk.injEq, true_and]
  cases handled <;> cases transitioned <;> simp

theorem saturated_transitioned (before : List DispatchStatus) :
    (counts before).saturated.transitioned > 0 ↔
      ∃ status ∈ before, status.transitioned = true := by
  have positive : 0 < usizeMax := by decide
  have counted : 0 < before.countP (·.transitioned) ↔
      ∃ status ∈ before, status.transitioned = true := List.countP_pos_iff
  rw [← counted]
  unfold DispatchSummary.saturated counts
  dsimp only
  omega

/-! ### What a part of the call does -/

section Part

variable {M E : Type} {D P : Nat}

/-- The queues hold these events. -/
def EventQueues.Hold (queues : EventQueues E D P) (deferred processed : List E) :
    Prop :=
  queues.deferred.Represents deferred ∧ queues.processed.Represents processed

variable (defer_fits : D ≤ usizeMax) (process_fits : P ≤ usizeMax)

include defer_fits process_fits

/-- A body appends to the deferred queue and pushes to the front of the process
queue. -/
theorem Body.run_spec (body : Body M E) {world : World M E D P}
    {deferred processed : List E} (hold : world.queues.Hold deferred processed) :
    ∃ added, (body.run world).1.record = world.record ++ added ∧
      statuses added = [(body.run world).2] ∧ offered added = [] ∧
      retried added = [] ∧
      (body.run world).1.queues.Hold (deferred ++ deferrals added)
        ((requests added).reverse ++ processed) := by
  induction body generalizing world deferred processed with
  | ret machine status =>
    refine ⟨[.answered status], rfl, rfl, rfl, rfl, ?_⟩
    simpa [deferrals, requests, Body.run, World.note] using hold
  | defer event next ih =>
    unfold Body.run
    have accepts := EventQueue.defer_represents defer_fits hold.1 event
    split at accepts
    · rw [accepts]
      exact ih false hold
    obtain ⟨queue, run, remains⟩ := accepts
    rw [run]
    obtain ⟨added, grown, answered, none, never, ends⟩ := @ih true
      ((world.set_deferred queue).note (.deferred event)) _ _ ⟨remains, hold.2⟩
    refine ⟨.deferred event :: added, ?_, answered, none, never, ?_⟩
    · rw [grown]
      simp [World.note, World.set_deferred]
    · simpa [deferrals, requests] using ends
  | process event next ih =>
    unfold Body.run
    have accepts := EventQueue.process_represents process_fits hold.2 event
    split at accepts
    · rw [accepts]
      exact ih false hold
    obtain ⟨queue, run, remains⟩ := accepts
    rw [run]
    obtain ⟨added, grown, answered, none, never, ends⟩ := @ih true
      ((world.set_processed queue).note (.processed event)) _ _ ⟨hold.1, remains⟩
    refine ⟨.processed event :: added, ?_, answered, none, never, ?_⟩
    · rw [grown]
      simp [World.note, World.set_processed]
    · simpa [deferrals, requests] using ends
  | deferred_len next ih => exact ih _ hold
  | processed_len next ih => exact ih _ hold

/-- One call of the callback. -/
theorem offer_spec {dispatch : Callback M E} {source : Source} {event : E}
    {world next : World M E D P} {status : DispatchStatus}
    {deferred processed : List E} (hold : world.queues.Hold deferred processed)
    (run : offer dispatch source event world = (next, status)) :
    ∃ added, next.record = world.record ++ .offered source event :: added ∧
      statuses added = [status] ∧ offered added = [] ∧ retried added = [] ∧
      next.queues.Hold (deferred ++ deferrals added)
        ((requests added).reverse ++ processed) := by
  obtain ⟨added, grown, rest⟩ := Body.run_spec defer_fits process_fits
    (dispatch world.machine event) (show
      (world.note (.offered source event)).queues.Hold deferred processed
      from hold)
  unfold offer at run
  rw [run] at grown rest
  refine ⟨added, ?_, rest⟩
  rw [grown]
  simp [World.note]

omit defer_fits process_fits

/-- What a part of the call has done that ends with an empty process queue and
with what is `left` in the deferred one: what `waits` for the callback, and what
is requested on the way, is offered to it. -/
structure Drained (world final : World M E D P) (before : List DispatchStatus)
    (total : DispatchSummary) (waits left : List E) (added : List (Entry E)) :
    Prop where
  record : final.record = world.record ++ added
  total : total = (counts (before ++ statuses added)).saturated
  called : (statuses added).length = (offered added).length
  all : (offered added).Perm (waits ++ requests added)
  hold : final.queues.Hold left []

variable {dispatch : Callback M E} {world mid final : World M E D P}
  {before : List DispatchStatus} {half total : DispatchSummary}
  {kept waits later left : List E} {first second : List (Entry E)}

/-- A part of the call behind another one. -/
theorem Drained.trans (head : Drained world mid before half waits kept first)
    (tail : Drained mid final (before ++ statuses first) total later left
      second) :
    Drained world final before total (waits ++ later) left (first ++ second) where
  record := by rw [tail.record, head.record, List.append_assoc]
  total := by rw [tail.total, statuses_append, List.append_assoc]
  called := by simp [head.called, tail.called]
  all := by
    rw [offered_append, requests_append]
    refine (head.all.append tail.all).trans ?_
    simp only [List.append_assoc]
    refine List.Perm.append_left waits ?_
    rw [← List.append_assoc, ← List.append_assoc]
    exact List.perm_append_comm.append_right _
  hold := tail.hold

include defer_fits process_fits

/-- A call of the callback with what it requests. -/
theorem Drained.offer {source : Source} {event : E} {status : DispatchStatus}
    (hold : world.queues.Hold kept waits)
    (run : offer dispatch source event world = (mid, status))
    (drained : ∀ first, statuses first = [status] →
      mid.queues.Hold (kept ++ deferrals first)
        ((requests first).reverse ++ waits) →
      ∃ second, retried second = [] ∧
        Drained mid final (before ++ [status]) total
          ((requests first).reverse ++ waits)
          ((kept ++ deferrals first) ++ deferrals second) second) :
    ∃ added, retried added = retried [.offered source event] ∧
      Drained world final before total (event :: waits)
        (kept ++ deferrals added) added := by
  obtain ⟨first, grown, answered, none, never, held⟩ :=
    offer_spec defer_fits process_fits hold run
  obtain ⟨second, unretried, drains⟩ := drained first answered held
  refine ⟨.offered source event :: first ++ second, ?_, ?_, ?_, ?_, ?_, ?_⟩
  · rw [retried_append, unretried, List.append_nil]
    cases source with
    | submitted => exact never
    | processed => exact never
    | deferred => exact congrArg (event :: ·) never
  · rw [drains.record, grown, List.append_assoc]
  · rw [drains.total]
    simp [answered]
  · simp [none, answered, drains.called]
  · simp only [List.cons_append, offered_cons, offered_append, none,
      requests_cons_offered, requests_append, List.nil_append]
    refine (drains.all.trans ?_).cons event
    rw [← List.append_assoc]
    refine List.Perm.append_right _ ?_
    exact (List.reverse_perm _).append_right waits |>.trans
      List.perm_append_comm
  · have ends := drains.hold
    simpa using ends

/-- Every event that waits to be processed or is requested on the way is
offered. -/
theorem drain_processed_spec {fuel : Nat} {summary : DispatchSummary}
    (hold : world.queues.Hold kept waits)
    (counted : summary = (counts before).saturated)
    (run : drain_processed dispatch fuel world summary = some (final, total)) :
    ∃ added, retried added = [] ∧
      Drained world final before total waits (kept ++ deferrals added)
        added := by
  induction fuel generalizing world summary kept waits before with
  | zero => cases run
  | succ fuel ih =>
    unfold drain_processed at run
    cases waits with
    | nil =>
      rw [EventQueue.pop_empty hold.2] at run
      cases run
      refine ⟨[], rfl, by simp, ?_, rfl, .nil, ?_⟩
      · simpa [statuses] using counted
      · simpa [deferrals] using hold
    | cons event rest =>
      obtain ⟨queue, popped, remains⟩ :=
        EventQueue.pop_represents process_fits hold.2
      rw [popped] at run
      dsimp only at run
      have taken : (world.set_processed queue).queues.Hold kept rest :=
        ⟨hold.1, remains⟩
      cases outcome : Utility.offer dispatch .processed event
          (world.set_processed queue) with
      | mk next status =>
        rw [outcome] at run
        have served : ∃ added, retried added = [] ∧
            Drained (world.set_processed queue) final before total
              (event :: rest) (kept ++ deferrals added) added :=
          Drained.offer defer_fits process_fits taken outcome
            fun first _ held =>
              ih held (by rw [counted, saturated_record]) run
        obtain ⟨added, unretried, drains⟩ := served
        exact ⟨added, unretried, { drains with record := drains.record }⟩

/-- Every event that is deferred when the retries start is offered once more, in
the order of the queue. -/
theorem retry_deferred_spec {fuel : Nat} {held : List E}
    {summary : DispatchSummary}
    (hold : world.queues.Hold (held ++ later) [])
    (counted : summary = (counts before).saturated)
    (run : retry_deferred dispatch fuel held.length world summary =
      some (final, total)) :
    ∃ added, retried added = held ∧
      Drained world final before total held (later ++ deferrals added)
        added := by
  induction held generalizing world summary later before with
  | nil =>
    cases run
    refine ⟨[], rfl, by simp, ?_, rfl, .nil, ?_⟩
    · simpa [statuses] using counted
    · simpa [deferrals] using hold
  | cons event rest ih =>
    obtain ⟨queue, popped, remains⟩ :=
      EventQueue.pop_represents defer_fits hold.1
    rw [List.length_cons] at run
    unfold retry_deferred at run
    rw [popped] at run
    dsimp only at run
    have taken : (world.set_deferred queue).queues.Hold (rest ++ later) [] :=
      ⟨remains, hold.2⟩
    cases outcome : Utility.offer dispatch .deferred event
        (world.set_deferred queue) with
    | mk next status =>
      rw [outcome] at run
      dsimp only at run
      cases drain : drain_processed dispatch fuel next
          (summary.record status) with
      | none =>
        rw [drain] at run
        cases run
      | some ends =>
        obtain ⟨mid, half⟩ := ends
        rw [drain] at run
        have recorded : summary.record status =
            (counts (before ++ [status])).saturated := by
          rw [counted, saturated_record]
        have served : ∃ added, retried added = [event] ∧
            Drained (world.set_deferred queue) mid before half [event]
              ((rest ++ later) ++ deferrals added) added :=
          Drained.offer defer_fits process_fits taken outcome
            fun first _ held =>
              drain_processed_spec defer_fits process_fits held recorded drain
        obtain ⟨first, once, serves⟩ := served
        have waiting := serves.hold
        rw [List.append_assoc] at waiting
        obtain ⟨second, again, retries⟩ := ih waiting serves.total run
        refine ⟨first ++ second, by simp [once, again], ?_⟩
        have both := serves.trans retries
        rw [List.append_assoc, ← deferrals_append] at both
        exact { both with record := both.record }

end Part

/-! ### The whole call -/

section Dispatch

variable {M E : Type} {D P : Nat}

/-- What a call that returns has done, with `deferred` and `processed` in the
queues when it began: `first` is the record of the event and of what was drained
with it, `retries` that of the retries. -/
structure Served (event : E) (deferred processed : List E)
    (final : World M E D P) (summary : DispatchSummary)
    (first retries : List (Entry E)) (left : List E) : Prop where
  record : final.record = first ++ retries
  emptied : final.queues.processed.Represents []
  remains : final.queues.deferred.Represents left
  /-- Without a state change the deferred queue is only appended to. -/
  idle : (∀ status ∈ statuses first, status.transitioned = false) →
    retries = [] ∧ left = deferred ++ deferrals first
  /-- Behind one, what is deferred then is retried once, in order, and what is
  deferred during the retries is left. -/
  retried : (∃ status ∈ statuses first, status.transitioned = true) →
    retried first = [] ∧ retried retries = deferred ++ deferrals first ∧
      left = deferrals retries
  /-- Every event that was ever queued is offered once or is left. -/
  conserved : (offered final.record ++ left).Perm
    (event :: (deferred ++ processed) ++
      (deferrals final.record ++ requests final.record))
  called : (statuses final.record).length = (offered final.record).length
  counted : summary = (counts (statuses final.record)).saturated

/-- A call that returns has served its event. -/
def Dispatched (queues : EventQueues E D P) (machine : M) (event : E)
    (dispatch : Callback M E) (deferred processed : List E) : Prop :=
  ∀ fuel final summary,
    queues.dispatch machine event dispatch fuel = some (final, summary) →
      ∃ first retries left,
        Served event deferred processed final summary first retries left

end Dispatch

/-! ### Counters that stop -/

/-- Requests its event again until it has been called `limit` times. -/
def again (limit : Nat) : Callback Nat Unit := fun count _ =>
  if count < limit then .process () fun _ => .ret (count + 1) .default
  else .ret count .default

/-- Queues that hold one event each. -/
def single : EventQueues Unit 1 1 where
  deferred := .new
  processed := .new

theorem single_hold : single.Hold [] [] :=
  ⟨EventQueue.new_represents, EventQueue.new_represents⟩

section Again

variable {limit : Nat} {world : World Nat Unit 1 1}

theorem again_offer_last (source : Source) (done : world.machine = limit) :
    offer (again limit) source () world =
      ((world.note (.offered source ())).note (.answered .default), .default) := by
  unfold offer again
  rw [if_neg (by omega)]
  simp [Body.run, World.note]

theorem again_offer (source : Source) (more : world.machine < limit)
    (hold : world.queues.Hold [] []) :
    ∃ next, offer (again limit) source () world = (next, .default) ∧
      next.record = world.record ++
        [.offered source (), .processed (), .answered .default] ∧
      next.machine = world.machine + 1 ∧ next.queues.Hold [] [()] := by
  have accepts := EventQueue.process_represents (by decide) hold.2 ()
  rw [if_neg (by decide)] at accepts
  obtain ⟨queue, run, remains⟩ := accepts
  refine ⟨{ (((world.note (.offered source ())).set_processed queue).note
    (.processed ())).note (.answered .default) with machine := world.machine + 1 },
    ?_, ?_, rfl, hold.1, remains⟩
  · unfold offer again
    rw [if_pos more]
    simp only [Body.run, World.note, run]
  · simp [World.note, World.set_processed]

/-- The requests are drained one after the other. -/
theorem again_drains (calls : Nat) :
    ∀ {world : World Nat Unit 1 1} {before : List DispatchStatus},
      world.machine + calls = limit → world.queues.Hold [] [()] →
      ∃ fuel final added,
        drain_processed (again limit) fuel world (counts before).saturated =
            some (final, (counts (before ++ statuses added)).saturated) ∧
          final.record = world.record ++ added ∧
          statuses added = List.replicate (calls + 1) .default := by
  induction calls with
  | zero =>
    intro world before done hold
    obtain ⟨queue, popped, remains⟩ :=
      EventQueue.pop_represents (by decide) hold.2
    refine ⟨2, ((world.set_processed queue).note
      (.offered .processed ())).note (.answered .default),
      [.offered .processed (), .answered .default], ?_, ?_, rfl⟩
    · unfold drain_processed
      rw [popped]
      dsimp only
      rw [again_offer_last .processed (by simpa [World.set_processed] using done),
        saturated_record]
      dsimp only
      unfold drain_processed
      have empty : ((((world.set_processed queue).note
          (.offered .processed ())).note (.answered .default)).queues.processed).pop =
            none := EventQueue.pop_empty remains
      rw [empty]
      rfl
    · simp [World.note, World.set_processed]
  | succ calls ih =>
    intro world before more hold
    obtain ⟨queue, popped, remains⟩ :=
      EventQueue.pop_represents (by decide) hold.2
    obtain ⟨next, offers, grown, counted, held⟩ :=
      @again_offer limit (world.set_processed queue) .processed (by simp [World.set_processed]; omega) ⟨hold.1, remains⟩
    obtain ⟨fuel, final, added, drains, further, answered⟩ := @ih next
      (before ++ [.default]) (by rw [counted]; simp [World.set_processed]; omega) held
    refine ⟨fuel + 1, final, [.offered .processed (), .processed (),
      .answered .default] ++ added, ?_, ?_, ?_⟩
    · unfold drain_processed
      rw [popped]
      dsimp only
      rw [offers, saturated_record]
      dsimp only
      rw [drains]
      simp [statuses]
    · rw [further, grown]
      simp [World.set_processed]
    · rw [statuses_append, answered]
      rfl

/-- A call with more requests than a `usize` counts. -/
theorem again_dispatch (more : 0 < limit) :
    ∃ fuel final,
      single.dispatch 0 () (again limit) fuel =
          some (final, (counts (statuses final.record)).saturated) ∧
        (statuses final.record).length = limit + 1 := by
  obtain ⟨next, offers, grown, counted, held⟩ := @again_offer limit
    { machine := 0, queues := single } .submitted more single_hold
  obtain ⟨fuel, final, added, drains, further, answered⟩ :=
    @again_drains limit (limit - 1) next [.default]
      (by rw [counted]; dsimp only; omega) held
  have all : statuses final.record = List.replicate (limit + 1) .default := by
    rw [further, grown, statuses_append, answered, List.nil_append]
    have count : limit - 1 + 1 = limit := by omega
    rw [count]
    rfl
  have every : statuses final.record = [.default] ++ statuses added := by
    rw [further, grown, statuses_append]
    rfl
  refine ⟨fuel, final, ?_, by rw [all, List.length_replicate]⟩
  unfold EventQueues.dispatch
  rw [offers]
  dsimp only
  have begun : ({} : DispatchSummary).record .default =
      (counts [.default]).saturated := saturated_record [] .default
  rw [begun, drains, Option.bind_eq_bind, Option.bind_some, ← every]
  dsimp only
  rw [if_neg]
  rw [saturated_transitioned]
  rintro ⟨status, among, moved⟩
  rw [all, List.mem_replicate] at among
  rw [among.2] at moved
  cases moved

end Again

/-- The counts of a call that returns are the numbers of calls of the callback and
of the statuses, however many there are. -/
def Exact {M E : Type} {D P : Nat} (queues : EventQueues E D P) (machine : M)
    (event : E) (dispatch : Callback M E) : Prop :=
  ∀ fuel final summary,
    queues.dispatch machine event dispatch fuel = some (final, summary) →
      summary = counts (statuses final.record)

end SmlRs.Utility
