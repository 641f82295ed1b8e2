/-
Module: SmlRs.Macros.Parameters
Purpose: The generated enums use all of their parameters.
Trusted boundary: lifecycle rows carry no data
Main exports: Collected.Keeps, GeneratedItem.Used, generated_enums_used
-/
import SmlRs.Macros.Closedness

namespace SmlRs.Macros

open Lib

variable {E : Environment}

/-! ### What the loop over the rows collects -/

section Keeps

variable {T : Type} [DecidableEq T] {lifetimes : T → Bool}
  {types after : E.Ident → Option T} {key : E.Ident} {data_type : Option T}
  {collected next : Collected E T} {row : ParsedRow E T}
  {front rows : List (ParsedRow E T)}

/-- A type is collected under its key, and those that are known stay. -/
theorem collect_keeps (run : collect lifetimes types key data_type = .ok after) :
    (∀ known, data_type = some known → after key = some known) ∧
      (∀ other known, types other = some known → after other = some known) ∧
        ∀ other, other ≠ key → after other = types other := by
  have add (own : T) (same : ∀ known, types key = some known → known = own)
      (run : (if lifetimes own = true then .ok (Function.update types key (some own))
        else .error .lifetimes : Except (ParseError E) (E.Ident → Option T)) = .ok after) :
      after key = some own ∧
        (∀ other known, types other = some known → after other = some known) ∧
          ∀ other, other ≠ key → after other = types other := by
    split at run
    · cases run
      refine ⟨Function.update_self .., ?_, fun other apart => Function.update_of_ne apart ..⟩
      intro other known found
      by_cases apart : other = key
      · subst apart
        rw [Function.update_self, same known found]
      · rw [Function.update_of_ne apart]
        exact found
    · cases run
  unfold collect at run
  cases before : types key with
  | none =>
      rw [before] at run
      cases data_type with
      | none =>
          cases run
          exact ⟨nofun, fun _ _ found => found, fun _ _ => rfl⟩
      | some own =>
          obtain ⟨added, rest⟩ := add own (fun known found => nomatch before.symm.trans found)
            run
          refine ⟨?_, rest⟩
          intro known given
          cases given
          exact added
  | some previous =>
      rw [before] at run
      cases data_type with
      | none => cases run
      | some own =>
          dsimp only at run
          split at run <;> rename_i same
          · cases run
          · have same := not_not.mp same
            subst same
            obtain ⟨added, rest⟩ := add previous (fun known found => by
              cases before.symm.trans found
              rfl) run
            refine ⟨?_, rest⟩
            intro known given
            cases given
            exact added

/-- Whatever has data is listed, and the data of the rows so far are known. -/
structure Collected.Keeps (front : List (ParsedRow E T)) (collected : Collected E T) :
    Prop where
  states : ∀ state known, collected.state_data state = some known →
    state ∈ collected.states
  events : ∀ event known, collected.event_data event = some known →
    event ∈ collected.events
  carried : ∀ row ∈ front, row.event.collects = true → ∀ known,
    row.event_type = some known →
      collected.event_data row.event.ident = some known

theorem Collected.Keeps.add_state {state : E.Ident}
    (keeps : collected.Keeps front)
    (run : collected.add_state lifetimes state data_type = .ok next) :
    next.Keeps front := by
  obtain ⟨state_data, collect, run⟩ := passes run
  cases run
  obtain ⟨_, _, others⟩ := collect_keeps collect
  refine ⟨?_, keeps.events, keeps.carried⟩
  intro other known found
  dsimp only at found ⊢
  rw [List.mem_insert_iff]
  by_cases own : other = state
  · exact .inl own
  · rw [others other own] at found
    exact .inr (keeps.states other known found)

theorem Collected.Keeps.add_event (keeps : collected.Keeps front)
    (run : collected.add_event lifetimes row = .ok next) :
    next.Keeps front ∧ ∀ known, row.event_type = some known →
      next.event_data row.event.ident = some known := by
  unfold Collected.add_event at run
  by_cases typed : (decide (row.event.kind ≠ .completion) || row.event_type.isSome) = true
  · rw [if_pos typed] at run
    obtain ⟨event_data, collect, run⟩ := passes run
    cases run
    obtain ⟨added, kept, others⟩ := collect_keeps collect
    refine ⟨⟨keeps.states, ?_, ?_⟩, added⟩
    · intro other known found
      dsimp only at found ⊢
      rw [List.mem_insert_iff]
      by_cases own : other = row.event.ident
      · exact .inl own
      · rw [others other own] at found
        exact .inr (keeps.events other known found)
    · intro before among named known given
      exact kept _ _ (keeps.carried before among named known given)
  · rw [if_neg typed] at run
    cases run
    refine ⟨⟨keeps.states, ?_, keeps.carried⟩, ?_⟩
    · intro other known found
      exact List.mem_insert_of_mem (keeps.events other known found)
    · intro known given
      rw [given] at typed
      simp at typed

theorem Collected.Keeps.add_row (keeps : collected.Keeps front)
    (run : collected.add_row lifetimes row = .ok next) :
    next.Keeps (front ++ [row]) := by
  rw [Collected.add_row_parts] at run
  obtain ⟨first, sources, run⟩ := passes run
  obtain ⟨second, targets, events⟩ := passes run
  have one : first.Keeps front := by
    split at sources
    · cases sources
      exact keeps
    · exact keeps.add_state sources
  have two : second.Keeps front := by
    split at targets
    · cases targets
      exact one
    · exact one.add_state targets
  have last : next.Keeps front ∧ (row.event.collects = true → ∀ known,
      row.event_type = some known → next.event_data row.event.ident = some known) := by
    split at events <;> rename_i named
    · obtain ⟨kept, added⟩ := two.add_event events
      exact ⟨kept, fun _ => added⟩
    · cases events
      exact ⟨two, fun collects => absurd collects named⟩
  refine ⟨last.1.states, last.1.events, ?_⟩
  intro other among named known given
  rcases List.mem_append.mp among with among | among
  · exact last.1.carried other among named known given
  · rw [List.mem_singleton.mp among] at named given ⊢
    exact last.2 named known given

theorem Collected.Keeps.add_rows (keeps : collected.Keeps front)
    (run : rows.foldlM (Collected.add_row lifetimes) collected = .ok next) :
    next.Keeps (front ++ rows) := by
  induction rows generalizing collected front with
  | nil =>
      cases run
      rw [List.append_nil]
      exact keeps
  | cons row rest hypothesis =>
      rw [List.foldlM_cons] at run
      obtain ⟨between, turn, run⟩ := passes run
      have all := hypothesis (keeps.add_row turn) run
      rw [List.append_assoc] at all
      exact all

/-- A table that is parsed keeps the data of its rows. -/
theorem ParsedStateMachine.new_keeps {iteration : Iteration E}
    {transitions : List (ParsedRow E T)} {sm : ParsedStateMachine E T}
    (accepted : ParsedStateMachine.new lifetimes iteration transitions = .ok sm) :
    (∀ state known, sm.state_data state = some known → state ∈ sm.states) ∧
      (∀ event known, sm.event_data event = some known → event ∈ sm.events) ∧
        ∀ row ∈ transitions, row.event.collects = true → ∀ known,
          row.event_type = some known → sm.event_data row.event.ident = some known := by
  rw [parsed_built] at accepted
  obtain ⟨_, _, accepted⟩ := passes accepted
  obtain ⟨collected, run, accepted⟩ := passes accepted
  have start : ({} : Collected E T).Keeps [] :=
    ⟨nofun, nofun, fun _ none => absurd none List.not_mem_nil⟩
  have keeps := start.add_rows run
  cases passed : verdicts collected.state_data collected.states []
      (transitions.map ParsedRow.derive_out_state) with
  | error _ =>
      rw [passed] at accepted
      cases accepted
  | ok _ =>
      rw [passed] at accepted
      cases accepted
      refine ⟨keeps.states, keeps.events, ?_⟩
      intro row among named known given
      have derived := keeps.carried row.derive_out_state
        (List.mem_append_right _ (List.mem_map_of_mem among))
      rw [ParsedRow.derive_event] at derived
      apply derived named
      unfold ParsedRow.derive_out_state
      split
      · exact given
      · exact given

end Keeps

/-! ### Used parameters -/

section Used

variable {N : Type} [DecidableEq N] {table : TypedTable E N} {sm : TypedStateMachine E N}

/-- Every parameter of an item is used by one of its types. -/
def GeneratedItem.Used (item : GeneratedItem N) : Prop :=
  ∀ param ∈ item.generics.params, ∃ data_type ∈ item.types,
    type_uses_generic_param data_type param = true

theorem GeneratedItem.Used.of_parts {item : GeneratedItem N}
    (lifetimes : ∀ lifetime ∈ item.generics.lifetimes, ∃ data_type ∈ item.types,
      lifetime ∈ free_lifetimes data_type)
    (families : ∀ generic ∈ item.generics.families, ∃ data_type ∈ item.types,
      type_uses_generic_param data_type generic = true) : item.Used := by
  intro param among
  cases kind : param.is_lifetime with
  | true =>
      cases param with
      | lifetime param =>
          obtain ⟨data_type, listed, mention⟩ := lifetimes param.lifetime
            (Generics.mem_lifetimes.mpr ⟨param, among, rfl⟩)
          exact ⟨data_type, listed, uses_lifetime_iff.mpr mention⟩
      | type ident bounds => cases kind
      | const ident data_type => cases kind
  | false => exact families param (List.mem_filter.mpr ⟨among, by rw [kind]; rfl⟩)

/-- A lifetime that is kept under a key is mentioned by the type there. -/
theorem DataDefinitions.Sound.mentioned {given : DataType N → Prop}
    {definitions : DataDefinitions E N} (sound : definitions.Sound given) {key : E.Ident}
    {lifetime : Lifetime N} (among : lifetime ∈ definitions.lifetimes_of key) :
    ∃ data_type, definitions.data_types key = some data_type ∧
      lifetime ∈ free_lifetimes data_type := by
  cases known : definitions.data_types key with
  | none =>
      unfold DataDefinitions.lifetimes_of at among
      rw [sound.absent key known] at among
      cases among
  | some data_type =>
      exact ⟨data_type, rfl, ((mem_from_type (sound.of_type key data_type known)).mp
        among).1⟩

omit [DecidableEq N] in
theorem lifetime_generics_families (lifetimes : Lifetimes N) :
    (lifetime_generics lifetimes).families = [] := by
  apply List.filter_eq_nil_iff.mpr
  intro param among
  obtain ⟨lifetime, _, rfl⟩ := List.mem_map.mp among
  simp

namespace TypedStateMachine

variable (made : sm.Made table)
  (parsed : (∀ state known, sm.parsed.state_data state = some known →
      state ∈ sm.parsed.states) ∧
    (∀ event known, sm.parsed.event_data event = some known →
      event ∈ sm.parsed.events) ∧
    ∀ row ∈ table.transitions.map (·.row), row.event.collects = true → ∀ known,
      row.event_type = some known → sm.parsed.event_data row.event.ident = some known)

include made parsed

theorem states_used : sm.states_item.Used := by
  apply GeneratedItem.Used.of_parts
  · intro lifetime declared
    have among : lifetime ∈ sm.state_lifetimes := by
      obtain ⟨param, listed, rfl⟩ := Generics.mem_lifetimes.mp declared
      obtain ⟨own, among, same⟩ := List.mem_map.mp listed
      cases same
      exact among
    obtain ⟨state, among⟩ := (made.sound.state.all_iff lifetime).mp among
    obtain ⟨data_type, typed, mention⟩ := made.sound.state.mentioned among
    have typed : sm.state_type state = some data_type := typed
    have listed := parsed.1 state data_type (made.state_types state ▸ typed)
    exact ⟨data_type, List.mem_filterMap.mpr ⟨state, listed, typed⟩, mention⟩
  · intro generic family
    have none : generic ∈ ([] : List (GenericParam N)) := by
      rw [← lifetime_generics_families sm.state_lifetimes]
      exact family
    cases none

/-- Every parameter of the table is used by an event. -/
theorem event_uses (carries : ∀ transition ∈ table.transitions,
      transition.row.event.collects = false → transition.row.event.kind ≠ .exception →
        transition.row.event_type = none)
    {generic : GenericParam N} (among : generic ∈ table.event_generics.params) :
    ∃ data_type ∈ sm.events_item.types,
      type_uses_generic_param data_type generic = true := by
  obtain ⟨transition, listed, event_type, typed, uses⟩ := made.checked.used generic among
  have kind : transition.row.event.kind ≠ .exception := by
    intro exception
    have unused := made.checked.exception transition listed exception event_type typed
      generic among
    rw [uses] at unused
    cases unused
  have collects : transition.row.event.collects = true := by
    by_contra none
    have untyped := carries transition listed (Bool.eq_false_iff.mpr none) kind
    rw [untyped] at typed
    cases typed
  have known := parsed.2.2 transition.row (List.mem_map_of_mem listed) collects event_type
    typed
  have named := parsed.2.1 _ _ known
  rw [← made.event_types] at known
  exact ⟨event_type, List.mem_filterMap.mpr ⟨_, named, known⟩, uses⟩

theorem events_used (inside : table.event_generics.Scoped)
    (carries : ∀ transition ∈ table.transitions,
      transition.row.event.collects = false → transition.row.event.kind ≠ .exception →
        transition.row.event_type = none) :
    sm.events_item.Used := by
  apply GeneratedItem.Used.of_parts
  · intro lifetime declared
    rcases (mem_events_lifetimes made inside).mp declared with declared | among
    · obtain ⟨param, listed, rfl⟩ := Generics.mem_lifetimes.mp declared
      obtain ⟨data_type, among, uses⟩ := event_uses made parsed carries listed
      exact ⟨data_type, among, uses_lifetime_iff.mp uses⟩
    · obtain ⟨event, among⟩ := (made.sound.event.all_iff lifetime).mp among
      obtain ⟨data_type, typed, mention⟩ := made.sound.event.mentioned among
      have typed : sm.event_type event = some data_type := typed
      have listed := parsed.2.1 event data_type (made.event_types event ▸ typed)
      exact ⟨data_type, List.mem_filterMap.mpr ⟨event, listed, typed⟩, mention⟩
  · intro generic family
    have own : generic ∈ table.event_generics.families := by
      rw [← Generics.with_families inside, ← made.generics]
      exact family
    exact event_uses made parsed carries (List.mem_filter.mp own).1

omit parsed in
theorem completion_origin_used (inside : table.event_generics.Scoped)
    (completion_events : List E.Ident) :
    (sm.completion_origin_item completion_events).Used := by
  have named : .static ∉ sm.completion_lifetimes completion_events := by
    intro among
    obtain ⟨event, _, own⟩ := (mem_completion_lifetimes made).mp among
    exact made.sound.event.named own rfl
  apply GeneratedItem.Used.of_parts
  · intro lifetime declared
    have among : lifetime ∈ sm.completion_lifetimes completion_events := by
      unfold completion_origin_item at declared
      rw [made.generics] at declared
      exact ((Generics.fits_completion inside
        (nodup_completion_lifetimes completion_events) named).lifetimes_iff lifetime).mp
          declared
    obtain ⟨event, listed, own⟩ := (mem_completion_lifetimes made).mp among
    obtain ⟨data_type, typed, mention⟩ := made.sound.event.mentioned own
    exact ⟨data_type, List.mem_filterMap.mpr ⟨event, listed, typed⟩, mention⟩
  · intro generic family
    unfold completion_origin_item completion_generics_with_lifetimes at family
    rw [made.generics] at family
    dsimp only at family
    cases found : completion_events.findSome? fun event =>
        (sm.event_type event).filter (type_uses_event_generics table.event_generics) with
    | none =>
        rw [found, Option.any_none, if_neg Bool.false_ne_true,
          if_neg Bool.false_ne_true, Generics.with_families Generics.Scoped.none] at family
        cases family
    | some own =>
        obtain ⟨event, listed, kept⟩ := List.exists_of_findSome?_eq_some found
        obtain ⟨typed, uses⟩ := Option.filter_eq_some_iff.mp kept
        rw [found, Option.any_some, if_pos uses, if_pos uses] at family
        obtain ⟨declared, among, same⟩ := Generics.mem_filter_families inside family
        -- The type has been given by a row, which uses the others as well.
        obtain ⟨transition, row, _, given⟩ := made.sound.event.types event own typed
        refine ⟨own, List.mem_filterMap.mpr ⟨event, listed, typed⟩, ?_⟩
        rw [same]
        exact made.checked.whole transition row own given uses declared among

end TypedStateMachine

end Used

end SmlRs.Macros
