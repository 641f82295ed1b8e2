/-
Module: SmlRs.Lib.Ledger
Purpose: Items that wait at places, each of them at one place only: appending a
  fresh item, moving a front part to an empty place, and taking the first item
  away.
Trusted boundary: none
Main exports: Placed, Placed.append, Placed.transfer, Placed.tail
-/
import Mathlib.Data.List.Nodup
import Mathlib.Logic.Function.Basic

namespace SmlRs.Lib

variable {ι α κ : Type*}

/-- No key waits twice, neither at one place nor at two. -/
structure Placed (key : α → κ) (waiting : ι → List α) : Prop where
  nodup : ∀ place, ((waiting place).map key).Nodup
  apart : ∀ {place other item twin}, item ∈ waiting place →
    twin ∈ waiting other → key item = key twin → place = other

variable {key : α → κ} {waiting : ι → List α} {place other : ι}
  {item : α} {rest moved : List α}

namespace Placed

theorem empty (nothing : ∀ place, waiting place = []) : Placed key waiting where
  nodup := by
    intro place
    rw [nothing place]
    exact List.nodup_nil
  apart := by
    intro place other item twin member
    rw [nothing place] at member
    cases member

variable [DecidableEq ι]

/-- An item with a new key may join the end of any place. -/
theorem append (placed : Placed key waiting)
    (fresh : ∀ place, ∀ twin ∈ waiting place, key twin ≠ key item) :
    Placed key (Function.update waiting place (waiting place ++ [item])) := by
  have member : ∀ {site twin},
      twin ∈ Function.update waiting place (waiting place ++ [item]) site →
        twin ∈ waiting site ∨ twin = item ∧ site = place := by
    intro site twin mem
    by_cases same : site = place
    · subst same
      rw [Function.update_self, List.mem_append, List.mem_singleton] at mem
      exact mem.imp_right fun is_item => ⟨is_item, rfl⟩
    · rw [Function.update_of_ne same] at mem
      exact .inl mem
  constructor
  · intro site
    by_cases same : site = place
    · subst same
      rw [Function.update_self, List.map_append, List.map_singleton,
        List.nodup_append]
      refine ⟨placed.nodup site, List.nodup_singleton _, ?_⟩
      intro first mem second single
      obtain ⟨twin, inside, rfl⟩ := List.mem_map.mp mem
      rw [List.mem_singleton.mp single]
      exact fresh site twin inside
    · rw [Function.update_of_ne same]
      exact placed.nodup site
  · intro first second one two mem_one mem_two same
    rcases member mem_one with old_one | ⟨rfl, rfl⟩
    · rcases member mem_two with old_two | ⟨rfl, rfl⟩
      · exact placed.apart old_one old_two same
      · exact absurd same (fresh first one old_one)
    · rcases member mem_two with old_two | ⟨rfl, rfl⟩
      · exact absurd same.symm (fresh second two old_two)
      · rfl

theorem mem_append {twin : α} :
    (∃ site,
        twin ∈ Function.update waiting place (waiting place ++ [item]) site) ↔
      (∃ site, twin ∈ waiting site) ∨ twin = item := by
  constructor
  · rintro ⟨site, mem⟩
    by_cases same : site = place
    · subst same
      rw [Function.update_self, List.mem_append, List.mem_singleton] at mem
      exact mem.imp_left fun inside => ⟨site, inside⟩
    · rw [Function.update_of_ne same] at mem
      exact .inl ⟨site, mem⟩
  · rintro (⟨site, mem⟩ | rfl)
    · refine ⟨site, ?_⟩
      by_cases same : site = place
      · subst same
        rw [Function.update_self]
        exact List.mem_append_left _ mem
      · rw [Function.update_of_ne same]
        exact mem
    · exact ⟨place, by simp⟩

theorem mem_transfer (apart : other ≠ place)
    (parts : waiting place = moved ++ rest) (empty : waiting other = [])
    {site : ι} {twin : α} :
    twin ∈ Function.update (Function.update waiting place rest) other moved
        site ↔
      twin ∈ waiting site ∧ (site = place → twin ∈ rest) ∨
        site = other ∧ twin ∈ moved := by
  by_cases at_other : site = other
  · subst at_other
    simp [apart, empty]
  · by_cases at_place : site = place
    · subst at_place
      have kept : twin ∈ rest → twin ∈ moved ∨ twin ∈ rest := .inr
      simpa [at_other, parts] using kept
    · simp [at_other, at_place]

/-- The front part of a place may move to an empty place. -/
theorem transfer (placed : Placed key waiting) (apart : other ≠ place)
    (parts : waiting place = moved ++ rest) (empty : waiting other = []) :
    Placed key
      (Function.update (Function.update waiting place rest) other moved) := by
  have whole := placed.nodup place
  rw [parts, List.map_append, List.nodup_append] at whole
  obtain ⟨moved_nodup, rest_nodup, disjoint⟩ := whole
  have inside : ∀ {twin}, twin ∈ moved → twin ∈ waiting place := by
    intro twin mem
    rw [parts]
    exact List.mem_append_left _ mem
  have clash : ∀ {first one two}, one ∈ waiting first →
      (first = place → one ∈ rest) → two ∈ moved → key one ≠ key two := by
    intro first one two mem stays mem_moved same
    have at_place := placed.apart mem (inside mem_moved) same
    exact disjoint _ (List.mem_map_of_mem mem_moved) _
      (List.mem_map_of_mem (stays at_place)) same.symm
  constructor
  · intro site
    by_cases at_other : site = other
    · subst at_other
      rw [Function.update_self]
      exact moved_nodup
    · rw [Function.update_of_ne at_other]
      by_cases at_place : site = place
      · subst at_place
        rw [Function.update_self]
        exact rest_nodup
      · rw [Function.update_of_ne at_place]
        exact placed.nodup site
  · intro first second one two mem_one mem_two same
    rcases (mem_transfer apart parts empty).mp mem_one with
      ⟨old_one, stays_one⟩ | ⟨rfl, moved_one⟩
    · rcases (mem_transfer apart parts empty).mp mem_two with
        ⟨old_two, _⟩ | ⟨rfl, moved_two⟩
      · exact placed.apart old_one old_two same
      · exact absurd same (clash old_one stays_one moved_two)
    · rcases (mem_transfer apart parts empty).mp mem_two with
        ⟨old_two, stays_two⟩ | ⟨rfl, moved_two⟩
      · exact absurd same.symm (clash old_two stays_two moved_one)
      · rfl

/-- Moving items loses none. -/
theorem exists_mem_transfer (apart : other ≠ place)
    (parts : waiting place = moved ++ rest) (empty : waiting other = [])
    {twin : α} :
    (∃ site, twin ∈
        Function.update (Function.update waiting place rest) other moved
          site) ↔
      ∃ site, twin ∈ waiting site := by
  simp only [mem_transfer apart parts empty]
  constructor
  · rintro ⟨site, ⟨mem, _⟩ | ⟨rfl, mem⟩⟩
    · exact ⟨site, mem⟩
    · exact ⟨place, by rw [parts]; exact List.mem_append_left _ mem⟩
  · rintro ⟨site, mem⟩
    by_cases at_place : site = place
    · subst at_place
      rw [parts] at mem
      rcases List.mem_append.mp mem with in_moved | in_rest
      · exact ⟨other, .inr ⟨rfl, in_moved⟩⟩
      · refine ⟨site, .inl ⟨?_, fun _ => in_rest⟩⟩
        rw [parts]
        exact List.mem_append_right _ in_rest
    · exact ⟨site, .inl ⟨mem, fun same => absurd same at_place⟩⟩

theorem mem_tail (first : waiting place = item :: rest) {site : ι} {twin : α}
    (mem : twin ∈ Function.update waiting place rest site) :
    twin ∈ waiting site := by
  by_cases same : site = place
  · subst same
    rw [Function.update_self] at mem
    rw [first]
    exact List.mem_cons_of_mem _ mem
  · rwa [Function.update_of_ne same] at mem

/-- The first item of a place may be taken away. -/
theorem tail (placed : Placed key waiting)
    (first : waiting place = item :: rest) :
    Placed key (Function.update waiting place rest) where
  nodup := by
    intro site
    by_cases same : site = place
    · subst same
      have whole := placed.nodup site
      rw [first, List.map_cons, List.nodup_cons] at whole
      rw [Function.update_self]
      exact whole.2
    · rw [Function.update_of_ne same]
      exact placed.nodup site
  apart := fun one two => placed.apart (mem_tail first one) (mem_tail first two)

/-- What still waits has another key than the item taken away. -/
theorem tail_apart (placed : Placed key waiting)
    (first : waiting place = item :: rest) {site : ι} {twin : α}
    (mem : twin ∈ Function.update waiting place rest site) :
    key twin ≠ key item := by
  intro same
  have at_place : item ∈ waiting place := by
    rw [first]
    exact List.mem_cons_self
  obtain rfl := placed.apart (mem_tail first mem) at_place same
  have whole := placed.nodup site
  rw [first, List.map_cons, List.nodup_cons] at whole
  rw [Function.update_self] at mem
  exact whole.1 (same ▸ List.mem_map_of_mem mem)

theorem exists_mem_tail (first : waiting place = item :: rest) {twin : α}
    (waits : ∃ site, twin ∈ waiting site) :
    twin = item ∨ ∃ site, twin ∈ Function.update waiting place rest site := by
  obtain ⟨site, mem⟩ := waits
  by_cases same : site = place
  · subst same
    rw [first, List.mem_cons] at mem
    exact mem.imp_right fun inside => ⟨site, by rwa [Function.update_self]⟩
  · exact .inr ⟨site, by rwa [Function.update_of_ne same]⟩

end Placed

end SmlRs.Lib
