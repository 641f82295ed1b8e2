/-
Module: SmlRs.Lib.Choice
Purpose: Lists of guarded programs that are tried in order, and when such a list
  runs the item it ought to run and no other.
Trusted boundary: none
Main exports: pick, behind, Trial, Trial.run, Trial.Obeys, pick_eq_iff,
  pick_first_eq_iff, Trial.obeys_iff
-/
import SmlRs.Lib.Effect

namespace SmlRs.Lib

/-!
A list of items is gone through once.  The condition of an item may look at
whether an earlier one has run, and it is evaluated in the state that is found
there.  `pick` says which item runs first; what is found behind it depends on the
state its body leaves.
-/

variable {σ ε δ κ η : Type}

/-! ### The first item -/

/-- The first item whose condition is true; none where a condition before it
cannot be evaluated. -/
def pick (condition : κ → Except δ Bool) : List κ → Option κ
  | [] => none
  | item :: rest =>
      match condition item with
      | .ok false => pick condition rest
      | .ok true => some item
      | .error _ => none

/-- The items behind the first one whose condition is not false. -/
def behind (condition : κ → Except δ Bool) : List κ → List κ
  | [] => []
  | item :: rest =>
      match condition item with
      | .ok false => behind condition rest
      | .ok true | .error _ => rest

section Pick

variable {condition other : κ → Except δ Bool} {item : κ} {items front back : List κ}

theorem pick_cons (item : κ) (rest : List κ) :
    pick condition (item :: rest) =
      match condition item with
      | .ok false => pick condition rest
      | .ok true => some item
      | .error _ => none := rfl

theorem pick_congr (same : ∀ item ∈ items, condition item = other item) :
    pick condition items = pick other items := by
  induction items with
  | nil => rfl
  | cons item rest ih =>
    rw [pick_cons, pick_cons, same item (by simp),
      ih fun item among => same item (by simp [among])]

theorem pick_of_front (refused : ∀ item ∈ front, condition item = .ok false) :
    pick condition (front ++ back) = pick condition back := by
  induction front with
  | nil => rfl
  | cons item rest ih =>
    rw [List.cons_append, pick_cons, refused item (by simp)]
    exact ih fun item among => refused item (by simp [among])

theorem pick_eq_some_iff :
    pick condition items = some item ↔
      ∃ front back, items = front ++ item :: back ∧
        (∀ earlier ∈ front, condition earlier = .ok false) ∧
          condition item = .ok true := by
  constructor
  · intro picked
    induction items with
    | nil => cases picked
    | cons head rest ih =>
      rw [pick_cons] at picked
      split at picked
      · rename_i refused
        obtain ⟨front, back, rfl, quiet, true⟩ := ih picked
        exact ⟨head :: front, back, rfl, by simpa [refused] using quiet, true⟩
      · rename_i true
        cases picked
        exact ⟨[], rest, rfl, by simp, true⟩
      · cases picked
  · rintro ⟨front, back, rfl, quiet, true⟩
    rw [pick_of_front quiet, pick_cons, true]

theorem mem_of_pick (picked : pick condition items = some item) :
    item ∈ items := by
  obtain ⟨front, back, rfl, _, _⟩ := pick_eq_some_iff.mp picked
  simp

theorem true_of_pick (picked : pick condition items = some item) :
    condition item = .ok true := by
  obtain ⟨_, _, _, _, true⟩ := pick_eq_some_iff.mp picked
  exact true

/-- Where some condition of the front is not false, what stands behind the front
does not matter. -/
theorem pick_append_of_not
    (some_not : ¬ ∀ item ∈ front, condition item = .ok false) :
    pick condition (front ++ back) = pick condition front := by
  induction front with
  | nil => exact absurd (by simp) some_not
  | cons item rest ih =>
    rw [List.cons_append, pick_cons, pick_cons]
    cases verdict : condition item with
    | error _ => rfl
    | ok value =>
      cases value with
      | true => rfl
      | false =>
        apply ih
        intro refused
        apply some_not
        simpa [verdict] using refused

end Pick

section Tried

variable {declared checked : κ → Except δ Bool} {tried hidden : List κ}

/-- Going through the front of a list alone picks what the list would pick if and
only if that is an item of the front. -/
theorem pick_eq_iff (same : ∀ item ∈ tried, checked item = declared item) :
    pick checked tried = pick declared (tried ++ hidden) ↔
      ∀ item, pick declared (tried ++ hidden) = some item → item ∈ tried := by
  rw [pick_congr same]
  constructor
  · intro agree item chosen
    exact mem_of_pick (agree.trans chosen)
  · intro inside
    by_cases refused : ∀ item ∈ tried, declared item = .ok false
    · have nothing : pick declared tried = none := by
        have tail := @pick_of_front _ _ _ _ ([] : List κ) refused
        rwa [List.append_nil] at tail
      rw [nothing]
      cases chosen : pick declared (tried ++ hidden) with
      | none => rfl
      | some item =>
        have true := true_of_pick chosen
        rw [refused item (inside item chosen)] at true
        cases true
    · exact (pick_append_of_not refused).symm

/-- The same for a front of at most one item, whose condition may be true where
it is not declared to be. -/
theorem pick_first_eq_iff (few : tried.length ≤ 1)
    (kept : ∀ item ∈ tried, declared item = .ok true → checked item = .ok true) :
    pick checked tried = pick declared (tried ++ hidden) ↔
      (∀ item, pick declared (tried ++ hidden) = some item → item ∈ tried) ∧
        ∀ item ∈ tried, checked item = .ok true → declared item = .ok true := by
  constructor
  · intro agree
    constructor
    · intro item chosen
      exact mem_of_pick (agree.trans chosen)
    · intro item among runs
      have alone : tried = [item] := by
        obtain ⟨only, rfl⟩ := List.length_eq_one_iff.mp
          (Nat.le_antisymm few (List.length_pos_of_mem among))
        rw [List.mem_singleton.mp among]
      apply true_of_pick
      rw [← agree, alone, pick_cons, runs]
  · rintro ⟨inside, within⟩
    cases tried with
    | nil =>
      cases chosen : pick declared ([] ++ hidden) with
      | none => rfl
      | some item => exact absurd (inside item chosen) (by simp)
    | cons first rest =>
      have none_behind : rest = [] := by
        apply List.length_eq_zero_iff.mp
        simp only [List.length_cons] at few
        omega
      subst none_behind
      by_cases runs : checked first = .ok true
      · rw [List.singleton_append, pick_cons, pick_cons, runs,
          within first (by simp) runs]
      · have nothing : pick checked [first] = none := by
          cases picked : pick checked [first] with
          | none => rfl
          | some item =>
            have here := mem_of_pick picked
            rw [List.mem_singleton.mp here] at picked
            exact absurd (true_of_pick picked) runs
        rw [nothing]
        cases chosen : pick declared ([first] ++ hidden) with
        | none => rfl
        | some item =>
          have here := List.mem_singleton.mp (inside item chosen)
          rw [here] at chosen
          exact absurd (kept first (by simp) (true_of_pick chosen)) runs

end Tried

/-! ### Running the items -/

/-- How the items of a list are tried.  The condition is told whether an earlier
item has run. -/
structure Trial (σ ε δ κ : Type) where
  condition : σ → κ → Bool → Except δ Bool
  body : κ → EStateM ε σ PUnit
  /-- The failure of a condition that cannot be evaluated. -/
  fail : δ → ε
  mark : σ → σ

namespace Trial

variable (trial : Trial σ ε δ κ)

/-- One item: whether it or an earlier one has run. -/
def step (handled : Bool) (item : κ) : EStateM ε σ Bool := fun s =>
  match trial.condition s item handled with
  | .error error => .error (trial.fail error) (trial.mark s)
  | .ok false => .ok handled s
  | .ok true => (trial.body item >>= fun _ => pure true) s

def run (items : List κ) : EStateM ε σ Bool :=
  items.foldlM trial.step false

/-- The run does what is wanted of it: the body of the item that is due and
nothing else, or no body where none is due. -/
def Obeys (program : EStateM ε σ Bool) (due : Option κ) (s : σ) : Prop :=
  match due with
  | some item => program s = (trial.body item >>= fun _ => pure true) s
  | none =>
      program s = .ok false s ∨
        ∃ error, program s = .error (trial.fail error) (trial.mark s)

/-- An item behind the one that is due is not refused in the state in which it is
tried. -/
def Overruns (items : List κ) (due : Option κ) (s : σ) : Prop :=
  ∃ item s', due = some item ∧ trial.body item s = .ok ⟨⟩ s' ∧
    ∃ later ∈ behind (fun item => trial.condition s item false) items,
      trial.condition s' later true ≠ .ok false

/-- The states keep a record, in which bodies and failures can be told apart. -/
structure Recorded (record : σ → List η) (began : σ → κ → η) (items : List κ)
    (s : σ) : Prop where
  marks : ∀ s, ∃ note, record (trial.mark s) = note :: record s ∧
    ∀ item, began s item ≠ note
  begins : ∀ item ∈ items, ∃ added,
    record (final (trial.body item) s) = added ++ began s item :: record s
  again : ∀ item ∈ items, ∀ s, trial.condition s item true = .ok true →
    ∃ added, record (final (trial.body item) s) =
      added ++ began s item :: record s
  names : ∀ item other, began s item = began s other → item = other

variable {trial} {items rest : List κ} {s s' : σ} {item : κ}

theorem run_cons (handled : Bool) :
    (item :: rest).foldlM trial.step handled s =
      match trial.condition s item handled with
      | .error error => .error (trial.fail error) (trial.mark s)
      | .ok false => rest.foldlM trial.step handled s
      | .ok true =>
          (trial.body item >>= fun _ => rest.foldlM trial.step true) s := by
  rw [List.foldlM_cons, bind_run]
  unfold step
  cases trial.condition s item handled with
  | error error => rfl
  | ok value =>
    cases value with
    | false => rfl
    | true =>
      dsimp only
      rw [bind_run, bind_run]
      cases trial.body item s <;> rfl

theorem run_of_none
    (idle : pick (fun item => trial.condition s item false) items = none) :
    trial.run items s = .ok false s ∨
      ∃ error, trial.run items s = .error (trial.fail error) (trial.mark s) := by
  unfold run
  induction items with
  | nil => exact .inl rfl
  | cons item rest ih =>
    rw [run_cons]
    rw [pick_cons] at idle
    split at idle
    · rename_i refused
      rw [refused]
      exact ih idle
    · cases idle
    · rename_i error failed
      rw [failed]
      exact .inr ⟨error, rfl⟩

theorem run_of_some
    (picked : pick (fun item => trial.condition s item false) items =
      some item) :
    trial.run items s =
      (trial.body item >>= fun _ =>
        (behind (fun item => trial.condition s item false) items).foldlM
          trial.step true) s := by
  unfold run
  induction items with
  | nil => cases picked
  | cons head rest ih =>
    rw [run_cons]
    unfold behind
    rw [pick_cons] at picked
    split at picked
    · rename_i refused
      rw [refused]
      exact ih picked
    · rename_i true
      cases picked
      rw [true]
    · cases picked

section Recorded

variable {record : σ → List η} {began : σ → κ → η} {all : List κ}
  (recorded : trial.Recorded record began all s)

include recorded

/-- What is tried behind an item that has run only adds to the record. -/
theorem record_behind (inside : ∀ later ∈ rest, later ∈ all) (s' : σ) :
    record s' <:+ record (final (rest.foldlM trial.step true) s') := by
  induction rest generalizing s' with
  | nil => exact List.suffix_refl _
  | cons later rest ih =>
    have onward := ih fun item among => inside item (by simp [among])
    unfold final at onward ⊢
    rw [run_cons]
    cases checked : trial.condition s' later true with
    | error error =>
      obtain ⟨note, marked, _⟩ := recorded.marks s'
      dsimp only
      rw [marked]
      exact List.suffix_cons note _
    | ok value =>
      cases value with
      | false => exact onward s'
      | true =>
        obtain ⟨added, grown⟩ :=
          recorded.again later (inside later (by simp)) s' checked
        have more : record s' <:+ record (final (trial.body later) s') := by
          rw [grown]
          exact (List.suffix_cons _ _).trans (List.suffix_append _ _)
        unfold final at more
        dsimp only
        rw [bind_run]
        cases ran : trial.body later s' with
        | error error mid =>
          rw [ran] at more
          exact more
        | ok value mid =>
          rw [ran] at more
          exact List.IsSuffix.trans more (onward mid)

/-- Behind an item that has run, nothing happens if and only if all conditions
are false. -/
theorem silent_behind_iff (inside : ∀ later ∈ rest, later ∈ all) (s' : σ) :
    rest.foldlM trial.step true s' = .ok true s' ↔
      ∀ later ∈ rest, trial.condition s' later true = .ok false := by
  induction rest with
  | nil => simp
  | cons later rest ih =>
    have inside_rest : ∀ item ∈ rest, item ∈ all := fun item among =>
      inside item (by simp [among])
    rw [run_cons, List.forall_mem_cons]
    cases checked : trial.condition s' later true with
    | error error => simp
    | ok value =>
      cases value with
      | false => simpa using ih inside_rest
      | true =>
        -- The body of a later item has left its entry in the record.
        obtain ⟨added, grown⟩ :=
          recorded.again later (inside later (by simp)) s' checked
        have ran_on : ¬ (trial.body later >>= fun _ =>
            rest.foldlM trial.step true) s' = .ok true s' := by
          intro same
          rw [bind_run] at same
          unfold final at grown
          cases ran : trial.body later s' with
          | error error mid =>
            rw [ran] at same
            cases same
          | ok value mid =>
            rw [ran] at same grown
            have onward := record_behind recorded inside_rest mid
            unfold final at onward
            dsimp only at same grown
            rw [same] at onward
            dsimp only at onward
            have shorter := onward.length_le
            rw [grown] at shorter
            simp only [List.length_append, List.length_cons] at shorter
            omega
        simp [ran_on]

/-- The record of a run tells which item began it. -/
theorem began_of_body (among : item ∈ all) (inside : ∀ later ∈ rest, later ∈ all) :
    ∃ added, record (final (trial.body item >>= fun _ =>
        rest.foldlM trial.step true) s) = added ++ began s item :: record s := by
  obtain ⟨added, grown⟩ := recorded.begins item among
  unfold final at grown ⊢
  rw [bind_run]
  cases ran : trial.body item s with
  | error error mid =>
    rw [ran] at grown
    exact ⟨added, grown⟩
  | ok value mid =>
    rw [ran] at grown
    dsimp only at grown ⊢
    obtain ⟨further, onward⟩ := record_behind recorded inside mid
    rw [grown] at onward
    exact ⟨further ++ added, by rw [List.append_assoc]; exact onward.symm⟩

theorem item_of_run {other : κ} {rest' : List κ} (among : item ∈ all)
    (inside : ∀ later ∈ rest, later ∈ all) (among' : other ∈ all)
    (inside' : ∀ later ∈ rest', later ∈ all)
    (same : (trial.body item >>= fun _ => rest.foldlM trial.step true) s =
      (trial.body other >>= fun _ => rest'.foldlM trial.step true) s) :
    item = other := by
  obtain ⟨added, grown⟩ := began_of_body recorded among inside
  obtain ⟨added', grown'⟩ := began_of_body recorded among' inside'
  unfold final at grown grown'
  rw [same, grown'] at grown
  have heads := (List.append_inj' grown (by simp)).2
  exact (recorded.names item other (List.cons.inj heads).1.symm)

/-- A run in which an item has begun is none in which nothing was due. -/
theorem not_idle (among : item ∈ all) (inside : ∀ later ∈ rest, later ∈ all)
    {program : EStateM ε σ Bool} (idle : trial.Obeys program none s) :
    program s ≠ (trial.body item >>= fun _ => rest.foldlM trial.step true) s := by
  intro same
  obtain ⟨added, grown⟩ := began_of_body recorded among inside
  unfold final at grown
  rw [← same] at grown
  rcases idle with quiet | ⟨error, failed⟩
  · rw [quiet] at grown
    have lengths := congrArg List.length grown
    simp only [List.length_append, List.length_cons] at lengths
    omega
  · obtain ⟨note, marked, differs⟩ := recorded.marks s
    rw [failed] at grown
    dsimp only at grown
    rw [marked] at grown
    have heads := (@List.append_inj' _ [] _ _ _ grown (by simp)).2
    exact differs item (List.cons.inj heads).1.symm

end Recorded

/-- A run that begins with the item that is due. -/
theorem obeys_iff_behind {record : σ → List η} {began : σ → κ → η} {all : List κ}
    (recorded : trial.Recorded record began all s)
    (inside : ∀ later ∈ behind (fun item => trial.condition s item false) items,
      later ∈ all)
    (ran : trial.run items s =
      (trial.body item >>= fun _ =>
        (behind (fun item => trial.condition s item false) items).foldlM
          trial.step true) s) :
    trial.Obeys (trial.run items) (some item) s ↔
      ¬ trial.Overruns items (some item) s := by
  unfold Obeys Overruns
  dsimp only
  rw [ran, bind_run, bind_run]
  cases body : trial.body item s with
  | error error mid =>
    have never : ¬ ∃ due s', some item = some due ∧
        trial.body due s = .ok ⟨⟩ s' ∧
          ∃ later ∈ behind (fun item => trial.condition s item false) items,
            trial.condition s' later true ≠ .ok false := by
      rintro ⟨due, s', same, returned, _⟩
      cases same
      rw [body] at returned
      cases returned
    exact ⟨fun _ => never, fun _ => rfl⟩
  | ok value mid =>
    have quiet := silent_behind_iff recorded inside mid
    constructor
    · rintro same ⟨due, s', named, returned, later, among, refuses⟩
      cases named
      rw [body] at returned
      cases returned
      exact refuses (quiet.mp same later among)
    · intro never
      apply quiet.mpr
      intro later among
      by_contra refuses
      exact never ⟨item, mid, rfl, body, later, among, refuses⟩

theorem mem_behind {condition : κ → Except δ Bool}
    (among : item ∈ behind condition items) : item ∈ items := by
  induction items with
  | nil => cases among
  | cons head rest ih =>
    unfold behind at among
    split at among
    · exact List.mem_cons_of_mem _ (ih among)
    · exact List.mem_cons_of_mem _ among
    · exact List.mem_cons_of_mem _ among

/-- A list is run as it ought to be if and only if it picks the item that is due
and refuses what stands behind it. -/
theorem obeys_iff {record : σ → List η} {began : σ → κ → η} {all : List κ}
    {due : Option κ} (recorded : trial.Recorded record began all s)
    (inside : ∀ item ∈ items, item ∈ all)
    (known : ∀ item, due = some item → item ∈ all) :
    trial.Obeys (trial.run items) due s ↔
      pick (fun item => trial.condition s item false) items = due ∧
        ¬ trial.Overruns items due s := by
  have inside_behind : ∀ later ∈ behind
      (fun item => trial.condition s item false) items, later ∈ all :=
    fun later among => inside later (mem_behind among)
  cases picked : pick (fun item => trial.condition s item false) items with
  | none =>
    have idle : trial.Obeys (trial.run items) none s := run_of_none picked
    cases due with
    | none => simp [idle, Overruns]
    | some item =>
      have refuted : ¬ trial.Obeys (trial.run items) (some item) s :=
        @not_idle _ _ _ _ _ trial [] s item _ _ _ recorded (known item rfl)
          (by simp) _ idle
      simp [refuted]
  | some item =>
    have among := inside item (mem_of_pick picked)
    have ran := run_of_some picked
    cases due with
    | none =>
      have refuted : ¬ trial.Obeys (trial.run items) none s := fun idle =>
        not_idle recorded among inside_behind idle ran
      simp [refuted]
    | some other =>
      by_cases same : item = other
      · rw [← same]
        simpa using obeys_iff_behind recorded inside_behind ran
      · have refuted : ¬ trial.Obeys (trial.run items) (some other) s := by
          intro obeys
          apply same
          exact @item_of_run _ _ _ _ _ trial _ s item _ _ _ recorded other []
            among inside_behind (known other rfl) (by simp) (ran.symm.trans obeys)
        simp [refuted, same]

end Trial

end SmlRs.Lib
