/-
Module: SmlRs.Scheduler.Invariant
Purpose: The invariant of every reachable `FifoScheduler` state, assembled from
  the line, its tickets, the submissions and the guards.
Trusted boundary: none
Main exports: State.Good, Step.good, State.cell_good, Reachable.good
-/
import SmlRs.Scheduler.Handover
import SmlRs.Scheduler.Results
import SmlRs.Scheduler.Submissions

namespace SmlRs.Scheduler

open Utility Lib

variable {M E : Type*} {N : Nat} {machine : SyncMachineStep M E}
  {panics : Prop}

/-- What holds in every reachable state. `panics` says whether steps may panic
in the runs considered. -/
structure State.Good (machine : SyncMachineStep M E) (panics : Prop)
    (s : State M E N) : Prop where
  ring : s.RingOk
  orderly : s.server.Orderly machine ⟨panics, False⟩
  ticketed : s.server.Ticketed
  lent : s.Lent
  sound : s.desk.Sound
  handed : s.HandedOver machine
  answers : s.Answers

theorem Step.good {label : Label} {s t : State M E N} (fits : N ≤ usizeMax)
    (step : Step machine s label t) (disciplined : Disciplined label)
    (calm : label.action = .panics → panics) (good : s.Good machine panics) :
    t.Good machine panics := by
  obtain ⟨ring, one⟩ := step.refines fits good.ring
  have allows := good.orderly.allows id disciplined calm
  exact
    { ring := ring
      orderly := one.orderly allows good.orderly
      ticketed := one.ticketed disciplined good.ticketed
      lent := step.lent good.lent
      sound := (step.desk good.lent).sound good.sound
      handed := step.handedOver fits disciplined allows good.ring good.orderly
        good.ticketed good.handed
      answers := step.answers fits good.ring good.answers }

section Initial

variable (machine) (initial : M)

@[simp] theorem State.cell_frames (c : Nat) :
    (State.cell machine initial : State M E N).frames c = .idle := rfl

@[simp] theorem State.cell_history :
    (State.cell machine initial : State M E N).history = {} := rfl

theorem State.cell_entries :
    (State.cell machine initial : State M E N).queue.entries = [] :=
  (FifoQueue.Wf.of_represents EventQueue.new_represents).2

theorem State.cell_closed :
    (State.cell machine initial : State M E N).queue.terminated =
      (State.cell machine initial : State M E N).server.closed machine := rfl

theorem State.cell_orderly {allowed : Allowed} :
    (State.cell machine initial : State M E N).server.Orderly machine allowed
    where
  exclusive :=
    { busy := by simp [Holds, State.server, Frame.stage]
      unique := by simp [Holds, State.server, Frame.stage] }
  manned := by
    rintro - ⟨⟩
  sound := id
  free := fun _ => ⟨rfl, fun _ => rfl, fun _ =>
    State.cell_entries (N := N) machine initial⟩
  line := by simp [State.server, State.cell_entries]
  issued := by simp [State.server]
  stepped := List.prefix_rfl
  returned := List.Sublist.refl _
  stages := by simp [State.server, Frame.stage]
  verdicts := by simp [State.server]

private theorem State.cell_ticketed :
    (State.cell machine initial : State M E N).server.Ticketed where
  issued := rfl
  placed := by
    refine Placed.empty fun place => ?_
    cases place with
    | none => exact State.cell_entries (N := N) machine initial
    | some c => rfl
  waits := by
    intro job ticket
    constructor
    · rintro ⟨none | c, member⟩
      · have empty : (job, ticket) ∈
            (State.cell machine initial : State M E N).queue.entries := member
        rw [State.cell_entries] at empty
        cases empty
      · cases member
    · rintro ⟨⟨⟩, -⟩
  log := by
    intro ticket accepted
    constructor
    · rintro ⟨⟩
    · rintro ⟨job, ⟨⟩⟩
  named := by simp [State.server]
  once := List.nodup_nil

theorem State.cell_good :
    (State.cell machine initial : State M E N).Good machine panics where
  ring := State.cell_ringOk initial
  orderly := State.cell_orderly machine initial
  ticketed := State.cell_ticketed machine initial
  lent :=
    { borrowed := by simp [Frame.polls]
      alone := by simp [Frame.polls] }
  sound :=
    { placed := Placed.empty fun holder => by cases holder <;> rfl
      loose_lt := by rintro (c | completion) job ⟨⟩
      admitted_lt := by simp [State.desk]
      apart := by rintro (c | completion) job ⟨⟩
      nodup := List.nodup_nil }
  handed :=
    { honest := fun _ => ⟨fun _ => rfl, Nat.le_refl _⟩
      phases := by simp }
  answers := fun _ => trivial

end Initial

/-- A run of disciplined guards keeps the invariant. -/
theorem TraceWhere.good {meets : Label → Prop} {s t : State M E N}
    {labels : List Label} (fits : N ≤ usizeMax)
    (disciplined : ∀ {label}, meets label → Disciplined label)
    (calm : ∀ {label : Label}, meets label → label.action = .panics → panics)
    (run : TraceWhere (Step machine) (fun _ label => meets label) s labels t)
    (good : s.Good machine panics) : t.Good machine panics :=
  Trace.invariant (fun one =>
    one.1.good fits (disciplined one.2) (calm one.2)) run good

/-- With disciplined guards, whether or not steps panic. -/
theorem Reachable.good {initial : M} {s : State M E N} (fits : N ≤ usizeMax)
    (reachable : Reachable machine initial Disciplined s) :
    s.Good machine True := by
  obtain ⟨labels, run⟩ := reachable
  exact TraceWhere.good fits id (fun _ _ => trivial) run
    (State.cell_good machine initial)

/-- A run without panics is a run of disciplined guards. -/
theorem Reachable.disciplined {initial : M} {s : State M E N}
    (reachable : Reachable machine initial PanicFree s) :
    Reachable machine initial Disciplined s := by
  obtain ⟨labels, run⟩ := reachable
  exact ⟨labels, TraceWhere.weaken (fun met => met.1) run⟩

/-- Without a panicking step. -/
theorem Reachable.good_of_calm {initial : M} {s : State M E N}
    (fits : N ≤ usizeMax)
    (reachable : Reachable machine initial PanicFree s) :
    s.Good machine False := by
  obtain ⟨labels, run⟩ := reachable
  exact TraceWhere.good fits (fun met => met.1)
    (fun met panics => met.2 panics) run (State.cell_good machine initial)

end SmlRs.Scheduler
