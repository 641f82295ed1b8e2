/-
Module: SmlRs.Scheduler.Tickets
Purpose: Every ticket of the line is unresolved at exactly one place, or
  resolved exactly once.
Trusted boundary: none
Main exports: Stage.pending, Server.waiting, Server.Ticketed,
  Server.Step.ticketed
-/
import SmlRs.Lib.Ledger
import SmlRs.Scheduler.Turn

namespace SmlRs.Scheduler

open Lib

variable {M E : Type*} {machine : SyncMachineStep M E}

/-- The jobs a stage still has to resolve, with their tickets. -/
def Stage.pending : Stage E → List (Job E × TicketId)
  | .running job (some ticket) _ | .stepping job (some ticket)
  | .resolving job (some ticket) _ _ | .panicked job (some ticket) =>
      [(job, ticket)]
  | .stranding stranded => stranded
  | .running _ none _ | .stepping _ none | .resolving _ none _ _
  | .panicked _ none | .looping _ | .reading .. | .handing ..
  | .foreignReading | .foreignHanding _ => []

namespace Server

/-- What waits where: `none` is the line, `some c` the stage of caller `c`. -/
def places (entries : List (Job E × TicketId))
    (stages : Nat → Option (Stage E)) : Option Nat → List (Job E × TicketId)
  | none => entries
  | some c => ((stages c).map Stage.pending).getD []

theorem places_entries (entries changed : List (Job E × TicketId))
    (stages : Nat → Option (Stage E)) :
    places changed stages =
      Function.update (places entries stages) none changed := by
  funext place
  cases place <;> simp [places]

theorem places_stage (entries : List (Job E × TicketId))
    (stages : Nat → Option (Stage E)) (c : Nat) (stage : Option (Stage E)) :
    places entries (Function.update stages c stage) =
      Function.update (places entries stages) (some c)
        ((stage.map Stage.pending).getD []) := by
  funext place
  cases place with
  | none => simp [places]
  | some other =>
      by_cases same : other = c
      · subst same
        simp [places]
      · simp [places, same]

/-- A stage that leaves open what it had open leaves every place alone. -/
theorem places_same {entries : List (Job E × TicketId)}
    {stages : Nat → Option (Stage E)} {c : Nat} {old stage : Option (Stage E)}
    (here : stages c = old)
    (same : (stage.map Stage.pending).getD [] =
      (old.map Stage.pending).getD []) :
    places entries (Function.update stages c stage) =
      places entries stages := by
  rw [places_stage, same, ← here]
  exact Function.update_eq_self (some c) (places entries stages)

def waiting (S : Server M E) : Option Nat → List (Job E × TicketId) :=
  places S.entries S.stages

/-- The tickets of the line are issued in order, each waits unresolved at one
place until it is resolved, and none is resolved twice. -/
structure Ticketed (S : Server M E) : Prop where
  issued : S.history.issued.map Prod.fst = List.range S.nextTicket
  placed : Placed Prod.snd S.waiting
  waits : ∀ job ticket, (∃ place, (job, ticket) ∈ S.waiting place) ↔
    (ticket, job) ∈ S.history.issued ∧ S.accepted ticket = none
  log : ∀ ticket accepted, S.accepted ticket = some accepted ↔
    ∃ job, { job, ticket := some ticket, accepted } ∈ S.history.resolutions
  named : ∀ resolution ∈ S.history.resolutions, ∀ ticket,
    resolution.ticket = some ticket →
      (ticket, resolution.job) ∈ S.history.issued
  once : (S.history.resolutions.filterMap Resolution.ticket).Nodup


namespace Ticketed

variable {S T : Server M E}

theorem lt_of_issued (ticketed : S.Ticketed) {ticket : TicketId} {job : Job E}
    (member : (ticket, job) ∈ S.history.issued) : ticket < S.nextTicket := by
  have listed := List.mem_map_of_mem (f := Prod.fst) member
  rw [ticketed.issued] at listed
  exact List.mem_range.mp listed

theorem job_unique (ticketed : S.Ticketed) {ticket : TicketId}
    {job other : Job E} (one : (ticket, job) ∈ S.history.issued)
    (two : (ticket, other) ∈ S.history.issued) : job = other := by
  have nodup : (S.history.issued.map Prod.fst).Nodup := by
    rw [ticketed.issued]
    exact List.nodup_range
  have same := List.inj_on_of_nodup_map nodup one two rfl
  exact congrArg Prod.snd same

/-- A resolved ticket is one that was issued. -/
theorem issued_of_accepted (ticketed : S.Ticketed) {ticket : TicketId}
    {accepted : Bool} (resolved : S.accepted ticket = some accepted) :
    ∃ job, (ticket, job) ∈ S.history.issued := by
  obtain ⟨job, logged⟩ := (ticketed.log ticket accepted).mp resolved
  exact ⟨job, ticketed.named _ logged ticket rfl⟩

/-- Nothing about tickets changes when every place and the log stay. -/
theorem same (ticketed : S.Ticketed) (waiting : T.waiting = S.waiting)
    (issued : T.history.issued = S.history.issued)
    (nextTicket : T.nextTicket = S.nextTicket)
    (accepted : T.accepted = S.accepted)
    (resolutions : T.history.resolutions = S.history.resolutions) :
    T.Ticketed := by
  constructor
  · rw [issued, nextTicket]
    exact ticketed.issued
  · rw [waiting]
    exact ticketed.placed
  · rw [waiting, issued, accepted]
    exact ticketed.waits
  · rw [accepted, resolutions]
    exact ticketed.log
  · rw [issued, resolutions]
    exact ticketed.named
  · rw [resolutions]
    exact ticketed.once

/-- A result without a ticket. -/
theorem reject (ticketed : S.Ticketed) {job : Job E} {accepted : Bool}
    (waiting : T.waiting = S.waiting)
    (issued : T.history.issued = S.history.issued)
    (nextTicket : T.nextTicket = S.nextTicket)
    (same : T.accepted = S.accepted)
    (resolutions : T.history.resolutions = S.history.resolutions ++
      [{ job, ticket := none, accepted }]) : T.Ticketed := by
  constructor
  · rw [issued, nextTicket]
    exact ticketed.issued
  · rw [waiting]
    exact ticketed.placed
  · rw [waiting, issued, same]
    exact ticketed.waits
  · intro ticket result
    rw [same, resolutions, ticketed.log]
    simp
  · intro resolution member ticket named
    rw [resolutions, List.mem_append, List.mem_singleton] at member
    rw [issued]
    rcases member with old | rfl
    · exact ticketed.named resolution old ticket named
    · cases named
  · rw [resolutions]
    simpa using ticketed.once

/-- A job with a new ticket joins the end of the line. -/
theorem issue (ticketed : S.Ticketed) {job : Job E}
    (waiting : T.waiting = Function.update S.waiting none
      (S.waiting none ++ [(job, S.nextTicket)]))
    (issued : T.history.issued = S.history.issued ++ [(S.nextTicket, job)])
    (nextTicket : T.nextTicket = S.nextTicket + 1)
    (same : T.accepted = S.accepted)
    (resolutions : T.history.resolutions = S.history.resolutions) :
    T.Ticketed := by
  have unresolved : S.accepted S.nextTicket = none := by
    by_contra resolved
    obtain ⟨accepted, resolved⟩ := Option.ne_none_iff_exists'.mp resolved
    obtain ⟨job, member⟩ := ticketed.issued_of_accepted resolved
    exact Nat.lt_irrefl _ (ticketed.lt_of_issued member)
  constructor
  · rw [issued, nextTicket, List.map_append, ticketed.issued, List.range_succ]
    rfl
  · rw [waiting]
    refine ticketed.placed.append ?_
    rintro place ⟨other, ticket⟩ member same
    have old := (ticketed.waits other ticket).mp ⟨place, member⟩
    exact absurd same (Nat.ne_of_lt (ticketed.lt_of_issued old.1))
  · intro other ticket
    rw [waiting, Placed.mem_append, ticketed.waits, issued, same,
      List.mem_append, List.mem_singleton]
    constructor
    · rintro (⟨old, open_⟩ | ⟨rfl, rfl⟩)
      · exact ⟨.inl old, open_⟩
      · exact ⟨.inr rfl, unresolved⟩
    · rintro ⟨old | new, open_⟩
      · exact .inl ⟨old, open_⟩
      · cases new
        exact .inr rfl
  · rw [same, resolutions]
    exact ticketed.log
  · intro resolution member ticket named
    rw [resolutions] at member
    rw [issued]
    exact List.mem_append_left _
      (ticketed.named resolution member ticket named)
  · rw [resolutions]
    exact ticketed.once

/-- The front of the line moves to a caller. -/
theorem transfer (ticketed : S.Ticketed) {c : Nat}
    {moved rest : List (Job E × TicketId)}
    (parts : S.waiting none = moved ++ rest)
    (vacant : S.waiting (some c) = [])
    (waiting : T.waiting = Function.update
      (Function.update S.waiting none rest) (some c) moved)
    (issued : T.history.issued = S.history.issued)
    (nextTicket : T.nextTicket = S.nextTicket)
    (same : T.accepted = S.accepted)
    (resolutions : T.history.resolutions = S.history.resolutions) :
    T.Ticketed := by
  have apart : some c ≠ none := by simp
  constructor
  · rw [issued, nextTicket]
    exact ticketed.issued
  · rw [waiting]
    exact ticketed.placed.transfer apart parts vacant
  · intro job ticket
    rw [waiting, Placed.exists_mem_transfer apart parts vacant, issued, same]
    exact ticketed.waits job ticket
  · rw [same, resolutions]
    exact ticketed.log
  · rw [issued, resolutions]
    exact ticketed.named
  · rw [resolutions]
    exact ticketed.once

/-- The first job a place still has to resolve gets its result. -/
theorem settle (ticketed : S.Ticketed) {place : Option Nat} {job : Job E}
    {ticket : TicketId} {accepted : Bool} {rest : List (Job E × TicketId)}
    (first : S.waiting place = (job, ticket) :: rest)
    (waiting : T.waiting = Function.update S.waiting place rest)
    (issued : T.history.issued = S.history.issued)
    (nextTicket : T.nextTicket = S.nextTicket)
    (resolved : T.accepted =
      Function.update S.accepted ticket (some accepted))
    (resolutions : T.history.resolutions = S.history.resolutions ++
      [{ job, ticket := some ticket, accepted }]) : T.Ticketed := by
  have member : (job, ticket) ∈ S.waiting place := by
    rw [first]
    exact List.mem_cons_self
  obtain ⟨known, unresolved⟩ := (ticketed.waits job ticket).mp ⟨place, member⟩
  constructor
  · rw [issued, nextTicket]
    exact ticketed.issued
  · rw [waiting]
    exact ticketed.placed.tail first
  · intro other otherTicket
    rw [waiting, issued, resolved]
    constructor
    · rintro ⟨site, waits⟩
      have apart : otherTicket ≠ ticket :=
        ticketed.placed.tail_apart first waits
      rw [Function.update_of_ne apart]
      exact (ticketed.waits other otherTicket).mp
        ⟨site, Placed.mem_tail first waits⟩
    · rintro ⟨listed, open_⟩
      by_cases same : otherTicket = ticket
      · subst same
        simp at open_
      · rw [Function.update_of_ne same] at open_
        have waits := (ticketed.waits other otherTicket).mpr ⟨listed, open_⟩
        rcases Placed.exists_mem_tail first waits with settled | waits
        · exact absurd (congrArg Prod.snd settled) same
        · exact waits
  · intro other result
    rw [resolved, resolutions]
    by_cases same : other = ticket
    · subst same
      rw [Function.update_self]
      constructor
      · rintro ⟨⟩
        exact ⟨job, by simp⟩
      · rintro ⟨logged, member⟩
        rcases List.mem_append.mp member with old | new
        · have contrary := (ticketed.log other result).mpr ⟨logged, old⟩
          rw [unresolved] at contrary
          cases contrary
        · simp only [List.mem_singleton, Resolution.mk.injEq] at new
          rw [new.2.2]
    · rw [Function.update_of_ne same, ticketed.log]
      simp [same]
  · intro resolution member other named
    rw [issued]
    rw [resolutions, List.mem_append, List.mem_singleton] at member
    rcases member with old | rfl
    · exact ticketed.named resolution old other named
    · cases named
      exact known
  · rw [resolutions, List.filterMap_append, List.nodup_append]
    refine ⟨ticketed.once, by simp, ?_⟩
    intro one logged two new same
    simp only [List.filterMap_cons, List.filterMap_nil, List.mem_singleton]
      at new
    subst new
    obtain ⟨resolution, old, named⟩ := List.mem_filterMap.mp logged
    obtain ⟨settled, logTicket, result⟩ := resolution
    simp only at named
    subst named
    have contrary := (ticketed.log one result).mpr ⟨settled, old⟩
    rw [same, unresolved] at contrary
    cases contrary

end Ticketed


variable {S T : Server M E}

private theorem places_at {c : Nat} {stage : Stage E}
    (here : S.stages c = some stage) : S.waiting (some c) = stage.pending := by
  simp [waiting, places, here]

/-- One step of the protocol keeps the tickets in order. -/
theorem Step.ticketed {label : Label} (step : Step machine S label T)
    (disciplined : Disciplined label) (ticketed : S.Ticketed) : T.Ticketed := by
  cases step with
  | stutter => exact ticketed
  | refuse => exact ticketed.reject rfl rfl rfl rfl rfl
  | queue =>
      refine ticketed.issue ?_ rfl rfl rfl rfl
      exact places_entries _ _ _
  | @takeOlder c _ job older olderTicket rest opened free front vacant =>
      have queued : ((({ S with entries := S.entries ++ [(job, S.nextTicket)] } :
          Server M E).enter job).issue job).Ticketed :=
        ticketed.issue (places_entries _ _ _) rfl rfl rfl rfl
      have parts : S.entries ++ [(job, S.nextTicket)] =
          [(older, olderTicket)] ++ (rest ++ [(job, S.nextTicket)]) := by
        simp [front]
      refine queued.transfer (c := c) parts ?_ ?_ rfl rfl rfl rfl
      · simp [waiting, places, issue, enter, vacant]
      · exact (places_stage _ _ _ _).trans
          (congrArg (Function.update · _ _) (places_entries _ _ _))
  | @takeOwn c _ job opened free empty vacant =>
      refine ticketed.same ?_ rfl rfl rfl rfl
      exact places_same vacant rfl
  | @skip c _ job ticket here =>
      refine ticketed.same ?_ rfl rfl rfl rfl
      exact places_same here (by cases ticket <;> rfl)
  | @beginStep c _ job ticket here =>
      refine ticketed.same ?_ rfl rfl rfl rfl
      exact places_same here (by cases ticket <;> rfl)
  | @stepReturns c _ job ticket core accepted here =>
      refine ticketed.same ?_ rfl rfl rfl rfl
      exact places_same here (by cases ticket <;> rfl)
  | @stepPanics c job ticket core here =>
      refine ticketed.same ?_ rfl rfl rfl rfl
      exact places_same here (by cases ticket <;> rfl)
  | @resolve c _ job ticket accepted terminated here =>
      cases ticket with
      | none =>
          refine ticketed.reject ?_ rfl rfl rfl rfl
          exact places_same here rfl
      | some ticket =>
          refine ticketed.settle (places_at here) ?_ rfl rfl rfl rfl
          exact places_stage _ _ _ _
  | @next c _ terminated job ticket rest here front =>
      have parts : S.entries = [(job, ticket)] ++ rest := front
      refine ticketed.transfer parts (places_at here) ?_ rfl rfl rfl rfl
      exact (places_stage _ _ _ _).trans
        (congrArg (Function.update · _ _) (places_entries _ _ _))
  | @release c _ terminated here empty =>
      refine ticketed.same ?_ rfl rfl rfl rfl
      exact places_same here rfl
  | @pendingDrop c _ job ticket here =>
      cases ticket with
      | none =>
          refine ticketed.reject ?_ rfl rfl rfl rfl
          exact places_same here rfl
      | some ticket =>
          refine ticketed.settle (places_at here) ?_ rfl rfl rfl rfl
          exact places_stage _ _ _ _
  | @guardReads c _ job ticket here =>
      refine ticketed.same ?_ rfl rfl rfl rfl
      exact places_same here rfl
  | @guardHands c _ job ticket terminated stranded rest here split =>
      refine ticketed.transfer split.symm (places_at here) ?_ rfl rfl rfl rfl
      exact (places_stage _ _ _ _).trans
        (congrArg (Function.update · _ _) (places_entries _ _ _))
  | @strand c _ job ticket stranded here =>
      refine ticketed.settle (places_at here) ?_ rfl rfl rfl rfl
      exact places_stage _ _ _ _
  | @stranded c _ here =>
      refine ticketed.same ?_ rfl rfl rfl rfl
      exact places_same here rfl
  | foreign => exact absurd rfl disciplined
  | @foreignReads c _ here =>
      refine ticketed.same ?_ rfl rfl rfl rfl
      exact places_same here rfl
  | @foreignHands c _ terminated stranded rest caller here split =>
      refine ticketed.transfer split.symm (places_at here) ?_ rfl rfl rfl rfl
      exact (places_stage _ _ _ _).trans
        (congrArg (Function.update · _ _) (places_entries _ _ _))

end Server

end SmlRs.Scheduler
