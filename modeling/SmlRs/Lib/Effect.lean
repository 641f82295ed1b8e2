/-
Module: SmlRs.Lib.Effect
Purpose: Rules of pre- and postconditions for programs that keep their state
  when they fail.
Trusted boundary: none
Main exports: final, attempt, tagged, Triple, Triple.seq, Triple.foldlM, Raises,
  Frame, Within, Within.seq, Within.foldlM
-/
import Mathlib.Tactic.Common

namespace SmlRs.Lib

/-!
A program is an `EStateM` computation: a failure hands the state on as it was
when the failure was raised.  `Triple` speaks about the state at both ends of a
run and about the value or the error it ends with.  `Within` speaks about the
two states alone, whichever way the run ends.
-/

universe u

variable {σ ε δ α β : Type u}

/-! ### Programs -/

/-- The state a program ends in, whether it returns or fails. -/
def final (program : EStateM ε σ α) (s : σ) : σ :=
  match program s with
  | .ok _ s' => s'
  | .error _ s' => s'

/-- Runs a program and hands its failure over as a value. -/
def attempt (program : EStateM ε σ α) : EStateM δ σ (Except ε α) := fun s =>
  match program s with
  | .ok value s' => .ok (.ok value) s'
  | .error error s' => .ok (.error error) s'

/-- Notes a failure in the state it is raised in, and tags it. -/
def tagged (tag : ε → δ) (noted : σ → σ) (program : EStateM ε σ α) :
    EStateM δ σ α := fun s =>
  match program s with
  | .ok value s' => .ok value s'
  | .error error s' => .error (tag error) (noted s')

/-- Marks the state a program fails in. -/
def marked (mark : ε → σ → σ) (program : EStateM ε σ α) : EStateM ε σ α :=
  fun s =>
    match program s with
    | .ok value s' => .ok value s'
    | .error error s' => .error error (mark error s')

@[simp] theorem final_attempt (program : EStateM ε σ α) (s : σ) :
    final (attempt program : EStateM δ σ (Except ε α)) s = final program s := by
  unfold final attempt
  cases program s <;> rfl

theorem bind_run (program : EStateM ε σ α) (next : α → EStateM ε σ β) (s : σ) :
    (program >>= next) s =
      match program s with
      | .ok value s' => next value s'
      | .error error s' => .error error s' := by
  show EStateM.bind program next s = _
  unfold EStateM.bind
  cases program s <;> rfl

@[simp] theorem pure_run (value : α) (s : σ) :
    (pure value : EStateM ε σ α) s = .ok value s := rfl

@[simp] theorem throw_run (error : ε) (s : σ) :
    (throw error : EStateM ε σ α) s = .error error s := rfl

@[simp] theorem get_bind_run (next : σ → EStateM ε σ β) (s : σ) :
    (get >>= next) s = next s s := rfl

@[simp] theorem set_bind_run (next : PUnit → EStateM ε σ β) (s s' : σ) :
    (set s' >>= next) s = next ⟨⟩ s' := rfl

@[simp] theorem modify_bind_run (change : σ → σ)
    (next : PUnit → EStateM ε σ β) (s : σ) :
    (modify change >>= next) s = next ⟨⟩ (change s) := rfl

/-- A sequence returns exactly when both of its parts do. -/
theorem bind_ok_iff {program : EStateM ε σ α} {next : α → EStateM ε σ β}
    {s s' : σ} {result : β} :
    (program >>= next) s = .ok result s' ↔
      ∃ value mid, program s = .ok value mid ∧ next value mid = .ok result s' := by
  rw [bind_run]
  cases program s with
  | ok value mid => simp
  | error error mid => simp

theorem ok_of_tagged {tag : ε → δ} {noted : σ → σ} {program : EStateM ε σ α}
    {value : α} {s s' : σ} (run : tagged tag noted program s = .ok value s') :
    program s = .ok value s' := by
  unfold tagged at run
  cases ran : program s with
  | ok value mid =>
    rw [ran] at run
    cases run
    rfl
  | error error mid =>
    rw [ran] at run
    cases run

theorem error_of_tagged {tag : ε → δ} {noted : σ → σ}
    {program : EStateM ε σ α} {failure : δ} {s s' : σ}
    (run : tagged tag noted program s = .error failure s') :
    ∃ error mid, program s = .error error mid ∧ failure = tag error ∧
      s' = noted mid := by
  unfold tagged at run
  cases ran : program s with
  | ok value mid =>
    rw [ran] at run
    cases run
  | error error mid =>
    rw [ran] at run
    cases run
    exact ⟨error, mid, rfl, rfl, rfl⟩

/-! ### Triples -/

/-- Started where `pre` holds, the program ends where `post` holds of its value
or fails where `fail` holds of its error. -/
def Triple (pre : σ → Prop) (program : EStateM ε σ α) (post : α → σ → Prop)
    (fail : ε → σ → Prop) : Prop :=
  ∀ s, pre s →
    match program s with
    | .ok value s' => post value s'
    | .error error s' => fail error s'

namespace Triple

variable {pre pre' : σ → Prop} {program : EStateM ε σ α}
  {post post' : α → σ → Prop} {fail fail' : ε → σ → Prop}

theorem ok (triple : Triple pre program post fail) {s s' : σ} {value : α}
    (start : pre s) (run : program s = .ok value s') : post value s' := by
  have ends := triple s start
  rw [run] at ends
  exact ends

theorem error (triple : Triple pre program post fail) {s s' : σ} {error : ε}
    (start : pre s) (run : program s = .error error s') : fail error s' := by
  have ends := triple s start
  rw [run] at ends
  exact ends

theorem final {ends : σ → Prop}
    (triple : Triple pre program (fun _ => ends) fun _ => ends) {s : σ}
    (start : pre s) : ends (Lib.final program s) := by
  unfold Lib.final
  cases run : program s with
  | ok value s' => exact triple.ok start run
  | error error s' => exact triple.error start run

theorem conseq (triple : Triple pre program post fail)
    (weaker : ∀ s, pre' s → pre s)
    (stronger : ∀ value s, post value s → post' value s)
    (failing : ∀ error s, fail error s → fail' error s) :
    Triple pre' program post' fail' := by
  intro s start
  have ends := triple s (weaker s start)
  cases run : program s with
  | ok value s' =>
    rw [run] at ends
    exact stronger value s' ends
  | error error s' =>
    rw [run] at ends
    exact failing error s' ends

/-- The precondition may be strengthened. -/
theorem strengthen (triple : Triple pre program post fail)
    (weaker : ∀ s, pre' s → pre s) : Triple pre' program post fail :=
  triple.conseq weaker (fun _ _ holds => holds) fun _ _ holds => holds

/-- Two triples of one program hold together. -/
theorem both (first : Triple pre program post fail)
    (second : Triple pre' program post' fail') :
    Triple (fun s => pre s ∧ pre' s) program
      (fun value s => post value s ∧ post' value s)
      fun error s => fail error s ∧ fail' error s := by
  rintro s ⟨start, start'⟩
  have ends := first s start
  have ends' := second s start'
  cases run : program s with
  | ok value s' =>
    rw [run] at ends ends'
    exact ⟨ends, ends'⟩
  | error error s' =>
    rw [run] at ends ends'
    exact ⟨ends, ends'⟩

/-- What does not depend on the state. -/
theorem always {holds : Prop} :
    Triple (fun _ => holds) program (fun _ _ => holds) fun _ _ => holds := by
  intro s start
  cases program s with
  | ok value s' => exact start
  | error error s' => exact start

theorem returns {value : α} (holds : ∀ s, pre s → post value s) :
    Triple pre (pure value : EStateM ε σ α) post fail :=
  holds

theorem throws {error : ε} (holds : ∀ s, pre s → fail error s) :
    Triple pre (throw error : EStateM ε σ α) post fail :=
  holds

theorem seq {mid : β → σ → Prop} {first : EStateM ε σ β}
    {next : β → EStateM ε σ α} (head : Triple pre first mid fail)
    (tail : ∀ value, Triple (mid value) (next value) post fail) :
    Triple pre (first >>= next) post fail := by
  intro s start
  have ends := head s start
  rw [bind_run]
  cases run : first s with
  | ok value s' =>
    rw [run] at ends
    exact tail value s' ends
  | error error s' =>
    rw [run] at ends
    exact ends

/-- A program that begins by reading the state. -/
theorem reads {next : σ → EStateM ε σ α}
    (each : ∀ value, Triple (fun s => s = value ∧ pre s) (next value) post fail) :
    Triple pre (get >>= next) post fail :=
  fun s start => each s s ⟨rfl, start⟩

theorem modifies {change : σ → σ} {post : PUnit → σ → Prop}
    {fail : ε → σ → Prop} (holds : ∀ s, pre s → post ⟨⟩ (change s)) :
    Triple pre (modify change : EStateM ε σ PUnit) post fail :=
  holds

/-- A program that begins by changing the state. -/
theorem changes {mid : σ → Prop} {change : σ → σ}
    {next : PUnit → EStateM ε σ α} (holds : ∀ s, pre s → mid (change s))
    (tail : Triple mid (next ⟨⟩) post fail) :
    Triple pre (modify change >>= next) post fail :=
  seq (modifies holds) fun _ => tail

theorem attempt {post : Except ε α → σ → Prop} {fail : δ → σ → Prop}
    (triple : Triple pre program (fun value => post (.ok value))
      fun error => post (.error error)) :
    Triple pre (Lib.attempt program) post fail := by
  intro s start
  have ends := triple s start
  unfold Lib.attempt
  cases run : program s with
  | ok value s' =>
    rw [run] at ends
    exact ends
  | error error s' =>
    rw [run] at ends
    exact ends

/-- A program behind which both outcomes are handled. -/
theorem attempted {good : α → σ → Prop} {bad : ε → σ → Prop}
    {next : Except ε α → EStateM δ σ β} {post : β → σ → Prop}
    {fail : δ → σ → Prop} (triple : Triple pre program good bad)
    (returned : ∀ value, Triple (good value) (next (.ok value)) post fail)
    (failed : ∀ error, Triple (bad error) (next (.error error)) post fail) :
    Triple pre (Lib.attempt program >>= next) post fail := by
  intro s start
  have ends := triple s start
  rw [bind_run]
  unfold Lib.attempt
  cases run : program s with
  | ok value s' =>
    rw [run] at ends
    exact returned value s' ends
  | error error s' =>
    rw [run] at ends
    exact failed error s' ends

theorem tagged {tag : ε → δ} {noted : σ → σ} {fail : δ → σ → Prop}
    (triple : Triple pre program post fun error s => fail (tag error) (noted s)) :
    Triple pre (Lib.tagged tag noted program) post fail := by
  intro s start
  have ends := triple s start
  unfold Lib.tagged
  cases run : program s with
  | ok value s' =>
    rw [run] at ends
    exact ends
  | error error s' =>
    rw [run] at ends
    exact ends

theorem marked {mark : ε → σ → σ}
    (triple : Triple pre program post fun error s => fail error (mark error s)) :
    Triple pre (Lib.marked mark program) post fail := by
  intro s start
  have ends := triple s start
  unfold Lib.marked
  cases run : program s with
  | ok value s' =>
    rw [run] at ends
    exact ends
  | error error s' =>
    rw [run] at ends
    exact ends

/-- A loop over a list keeps an invariant that speaks about what has been gone
through. -/
theorem foldlM {step : β → α → EStateM ε σ β} {fail : ε → σ → Prop}
    {inv : List α → β → σ → Prop} {items : List α}
    (each : ∀ front item back value, items = front ++ item :: back →
      Triple (inv front value) (step value item) (inv (front ++ [item])) fail)
    (value : β) :
    Triple (inv [] value) (items.foldlM step value) (inv items) fail := by
  suffices rest : ∀ back front value, items = front ++ back →
      Triple (inv front value) (back.foldlM step value) (inv items) fail from
    rest items [] value rfl
  intro back
  induction back with
  | nil =>
    rintro front value split
    rw [List.append_nil] at split
    subst split
    exact returns fun _ holds => holds
  | cons item back ih =>
    intro front value split
    rw [List.foldlM_cons]
    refine seq (each front item back value split) fun value => ?_
    exact ih (front ++ [item]) value (by simp [split])

/-- A loop over a list keeps an invariant that speaks about its value alone. -/
theorem fold {step : β → α → EStateM ε σ β} {fail : ε → σ → Prop}
    {inv : β → σ → Prop} {items : List α}
    (each : ∀ value, ∀ item ∈ items, Triple (inv value) (step value item) inv
      fail) (value : β) :
    Triple (inv value) (items.foldlM step value) inv fail :=
  @foldlM _ _ _ _ step fail (fun _ => inv) items (fun _ item _ value split =>
    each value item (by simp [split])) value

/-- A loop without a value keeps an invariant that speaks about what has been
gone through. -/
theorem forM {step : α → EStateM ε σ PUnit} {fail : ε → σ → Prop}
    {inv : List α → σ → Prop} {items : List α}
    (each : ∀ front item back, items = front ++ item :: back →
      Triple (inv front) (step item) (fun _ => inv (front ++ [item])) fail) :
    Triple (inv []) (items.forM step) (fun _ => inv items) fail := by
  suffices rest : ∀ back front, items = front ++ back →
      Triple (inv front) (back.forM step) (fun _ => inv items) fail from
    rest items [] rfl
  intro back
  induction back with
  | nil =>
    intro front split
    rw [List.append_nil] at split
    subst split
    exact returns fun _ holds => holds
  | cons item back ih =>
    intro front split
    apply seq (each front item back split)
    intro _
    exact ih (front ++ [item]) (by simp [split])

/-- A loop without a value keeps an invariant. -/
theorem loop {step : α → EStateM ε σ PUnit} {fail : ε → σ → Prop}
    {inv : σ → Prop} {items : List α}
    (each : ∀ item ∈ items, Triple inv (step item) (fun _ => inv) fail) :
    Triple inv (items.forM step) (fun _ => inv) fail :=
  @forM _ _ _ step fail (fun _ => inv) items fun _ item _ split =>
    each item (by simp [split])

end Triple

/-! ### The errors of a program -/

/-- The program fails with errors of a kind only. -/
def Raises (allowed : ε → Prop) (program : EStateM ε σ α) : Prop :=
  Triple (fun _ => True) program (fun _ _ => True) fun error _ => allowed error

namespace Raises

variable {allowed : ε → Prop} {program : EStateM ε σ α}

theorem returns (value : α) :
    Raises allowed (pure value : EStateM ε σ α) :=
  fun _ _ => trivial

theorem throws {error : ε} (allows : allowed error) :
    Raises allowed (throw error : EStateM ε σ α) :=
  fun _ _ => allows

theorem modifies (change : σ → σ) :
    Raises allowed (modify change : EStateM ε σ PUnit) :=
  fun _ _ => trivial

theorem seq {first : EStateM ε σ β} {next : β → EStateM ε σ α}
    (head : Raises allowed first) (tail : ∀ value, Raises allowed (next value)) :
    Raises allowed (first >>= next) :=
  Triple.seq head tail

/-- A program that begins by reading the state. -/
theorem reads {next : σ → EStateM ε σ α} (each : ∀ s, Raises allowed (next s)) :
    Raises allowed (get >>= next) :=
  fun s _ => each s s trivial

/-- A program that begins by changing the state. -/
theorem changes {change : σ → σ} {next : PUnit → EStateM ε σ α}
    (tail : Raises allowed (next ⟨⟩)) :
    Raises allowed (modify change >>= next) :=
  fun s _ => tail (change s) trivial

theorem foldlM {step : β → α → EStateM ε σ β} {items : List α}
    (each : ∀ value, ∀ item ∈ items, Raises allowed (step value item))
    (value : β) : Raises allowed (items.foldlM step value) :=
  @Triple.fold _ _ _ _ step _ (fun _ _ => True) items each value

theorem forM {step : α → EStateM ε σ PUnit} {items : List α}
    (each : ∀ item ∈ items, Raises allowed (step item)) :
    Raises allowed (items.forM step) :=
  Triple.loop each

theorem marked {mark : ε → σ → σ} (raises : Raises allowed program) :
    Raises allowed (Lib.marked mark program) :=
  Triple.marked raises

/-- What a program carries, with what is known of its errors. -/
theorem within {inv : σ → Prop} (raises : Raises allowed program)
    (carries : Triple inv program (fun _ => inv) fun _ => inv) :
    Triple inv program (fun _ => inv) fun error s => allowed error ∧ inv s :=
  (raises.both carries).conseq (fun _ start => ⟨trivial, start⟩)
    (fun _ _ ends => ends.2) fun _ _ ends => ends

end Raises

/-! ### Moving within a relation -/

/-- A relation that a sequence of moves cannot leave. -/
structure Frame (rel : σ → σ → Prop) : Prop where
  refl : ∀ s, rel s s
  trans : ∀ {s t r}, rel s t → rel t r → rel s r

/-- What keeps an invariant. -/
theorem Frame.carries {inv : σ → Prop} : Frame fun s s' => inv s → inv s' where
  refl _ := id
  trans first second start := second (first start)

/-- Whichever way a run ends, it moves the state within the relation. -/
def Within (rel : σ → σ → Prop) (program : EStateM ε σ α) : Prop :=
  ∀ s,
    match program s with
    | .ok _ s' => rel s s'
    | .error _ s' => rel s s'

namespace Within

variable {rel : σ → σ → Prop} {program : EStateM ε σ α}

theorem ok (within : Within rel program) {s s' : σ} {value : α}
    (run : program s = .ok value s') : rel s s' := by
  have ends := within s
  rw [run] at ends
  exact ends

theorem error (within : Within rel program) {s s' : σ} {error : ε}
    (run : program s = .error error s') : rel s s' := by
  have ends := within s
  rw [run] at ends
  exact ends

theorem final (within : Within rel program) (s : σ) :
    rel s (Lib.final program s) := by
  unfold Lib.final
  cases run : program s with
  | ok value s' => exact within.ok run
  | error error s' => exact within.error run

theorem of_final (moves : ∀ s, rel s (Lib.final program s)) :
    Within rel program := by
  intro s
  have moved := moves s
  unfold Lib.final at moved
  cases run : program s with
  | ok value s' =>
    rw [run] at moved
    exact moved
  | error error s' =>
    rw [run] at moved
    exact moved

theorem mono {wider : σ → σ → Prop} (within : Within rel program)
    (weaker : ∀ s s', rel s s' → wider s s') : Within wider program := by
  intro s
  cases run : program s with
  | ok value s' => exact weaker s s' (within.ok run)
  | error error s' => exact weaker s s' (within.error run)

theorem both {other : σ → σ → Prop} (within : Within rel program)
    (beside : Within other program) :
    Within (fun s s' => rel s s' ∧ other s s') program := by
  intro s
  cases run : program s with
  | ok value s' => exact ⟨within.ok run, beside.ok run⟩
  | error error s' => exact ⟨within.error run, beside.error run⟩

/-- A program carries what its relation carries. -/
theorem triple {inv : σ → Prop} (within : Within rel program)
    (carried : ∀ {s s'}, rel s s' → inv s → inv s') :
    Triple inv program (fun _ => inv) fun _ => inv := by
  intro s start
  cases run : program s with
  | ok value s' => exact carried (within.ok run) start
  | error error s' => exact carried (within.error run) start

/-- A program stays within a relation when it carries what can be reached from
any state. -/
theorem of_triples (refl : ∀ s, rel s s)
    (carries : ∀ s, Triple (rel s) program (fun _ => rel s) fun _ => rel s) :
    Within rel program := by
  intro s
  have ends := carries s s (refl s)
  cases run : program s with
  | ok value s' =>
    rw [run] at ends
    exact ends
  | error error s' =>
    rw [run] at ends
    exact ends

theorem modifies {change : σ → σ} (moves : ∀ s, rel s (change s)) :
    Within rel (modify change : EStateM ε σ PUnit) :=
  moves

section Frame

variable (frame : Frame rel)

include frame

theorem returns (value : α) : Within rel (pure value : EStateM ε σ α) :=
  frame.refl

theorem throws (error : ε) : Within rel (throw error : EStateM ε σ α) :=
  frame.refl

theorem gets : Within rel (get : EStateM ε σ σ) :=
  frame.refl

/-- A program that starts behind a move. -/
theorem after (within : Within rel program) {s mid : σ} (moved : rel s mid) :
    match program mid with
    | .ok _ s' => rel s s'
    | .error _ s' => rel s s' := by
  cases run : program mid with
  | ok value s' => exact frame.trans moved (within.ok run)
  | error error s' => exact frame.trans moved (within.error run)

theorem seq {first : EStateM ε σ β} {next : β → EStateM ε σ α}
    (head : Within rel first) (tail : ∀ value, Within rel (next value)) :
    Within rel (first >>= next) := by
  intro s
  rw [bind_run]
  cases run : first s with
  | ok value mid => exact after frame (tail value) (head.ok run)
  | error error s' => exact head.error run

/-- A program that starts where another one ends that has moved. -/
theorem onward {first : EStateM ε σ β} {next : β → EStateM ε σ α} {s mid : σ}
    (moved : rel s (Lib.final first mid))
    (tail : ∀ value, Within rel (next value)) :
    match (first >>= next) mid with
    | .ok _ s' => rel s s'
    | .error _ s' => rel s s' := by
  unfold Lib.final at moved
  rw [bind_run]
  cases run : first mid with
  | ok value s' => exact after frame (tail value) (by simpa [run] using moved)
  | error error s' => simpa [run] using moved

/-- The same, of the state it ends in. -/
theorem final_seq {first : EStateM ε σ β} {next : β → EStateM ε σ α} {s mid : σ}
    (moved : rel s (Lib.final first mid))
    (tail : ∀ value, Within rel (next value)) :
    rel s (Lib.final (first >>= next) mid) := by
  have ends := onward frame moved tail
  unfold Lib.final
  cases run : (first >>= next) mid with
  | ok value s' =>
    rw [run] at ends
    exact ends
  | error error s' =>
    rw [run] at ends
    exact ends

theorem foldlM {step : β → α → EStateM ε σ β} {items : List α}
    (each : ∀ value, ∀ item ∈ items, Within rel (step value item)) (value : β) :
    Within rel (items.foldlM step value) := by
  induction items generalizing value with
  | nil => exact returns frame value
  | cons item rest ih =>
    rw [List.foldlM_cons]
    refine seq frame (each value item (by simp)) fun value => ?_
    exact ih (fun value item among => each value item (by simp [among])) value

theorem forM {step : α → EStateM ε σ PUnit} {items : List α}
    (each : ∀ item ∈ items, Within rel (step item)) :
    Within rel (items.forM step) := by
  induction items with
  | nil => exact returns frame PUnit.unit
  | cons item rest ih =>
    refine seq frame (each item (by simp)) fun _ => ?_
    exact ih fun item among => each item (by simp [among])

end Frame

theorem attempt (within : Within rel program) :
    Within rel (Lib.attempt program : EStateM δ σ (Except ε α)) := by
  intro s
  unfold Lib.attempt
  cases run : program s with
  | ok value s' => exact within.ok run
  | error error s' => exact within.error run

theorem tagged {tag : ε → δ} {noted : σ → σ} (frame : Frame rel)
    (within : Within rel program) (notes : ∀ s, rel s (noted s)) :
    Within rel (Lib.tagged tag noted program) := by
  intro s
  unfold Lib.tagged
  cases run : program s with
  | ok value s' => exact within.ok run
  | error error s' => exact frame.trans (within.error run) (notes s')

theorem marked {mark : ε → σ → σ} (frame : Frame rel)
    (within : Within rel program) (marks : ∀ error s, rel s (mark error s)) :
    Within rel (Lib.marked mark program) := by
  intro s
  unfold Lib.marked
  cases run : program s with
  | ok value s' => exact within.ok run
  | error error s' => exact frame.trans (within.error run) (marks error s')

end Within

end SmlRs.Lib
