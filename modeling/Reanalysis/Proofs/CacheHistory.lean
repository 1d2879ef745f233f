/-
What a cache holds, told from its history. A file has the result that was last recorded under any
of its spellings, unless it was invalidated or the cache was cleared since; and what is held is
listed in file order, each file once.
-/

import Mathlib.Data.List.Basic
import Mathlib.Data.List.Induction
import Reanalysis.Proofs.PathLookup

namespace Reanalysis

namespace PathMap

variable {α : Type}

theorem map_find?_keys (map : PathMap α) : map.keys.map map.find? = map.values.map some := by
  unfold keys values
  rw [List.map_map, List.map_map]
  exact List.map_congr_left fun entry member => find?_of_mem map member

theorem entries_eraseAll (keys : List SourcePath) (map : PathMap α) :
    (keys.foldl erase map).entries =
      map.entries.filter fun entry => !keys.any (·.same entry.1) := by
  induction keys generalizing map with
  | nil => exact (List.filter_eq_self.mpr fun _ _ => rfl).symm
  | cons key rest ih =>
      rw [List.foldl_cons, ih]
      change (map.entries.filter fun entry => !entry.1.same key).filter _ = _
      rw [List.filter_filter]
      congr 1
      funext entry
      rw [List.any_cons, SourcePath.same_comm entry.1 key, Bool.not_or, Bool.and_comm]

end PathMap

namespace ResultCache

variable {α : Type} (cache : ResultCache α) (change : Change)

theorem entries_invalidate :
    (cache.invalidate change).results.entries =
      cache.results.entries.filter fun entry => !change.touches entry.1 := by
  refine (PathMap.entries_eraseAll _ cache.results).trans ?_
  congr 1
  funext entry
  rw [List.any_append, PathSet.any_same_files, PathSet.any_same_files]
  rfl

theorem get?_invalidate (file : SourcePath) :
    (cache.invalidate change).get? file =
      if change.touches file then none else cache.get? file := by
  refine (PathMap.find?_eraseAll _ cache.results file).trans ?_
  rw [List.any_append, PathSet.any_same_files, PathSet.any_same_files]
  rfl

theorem files_invalidate :
    (cache.invalidate change).files = cache.files.filter fun file => !change.touches file := by
  unfold files PathMap.keys
  rw [entries_invalidate, List.filter_map]
  rfl

theorem dropped_eq : cache.dropped change = (cache.files.filter change.touches).length := by
  have sizes : (cache.invalidate change).size =
      (cache.files.filter fun file => !change.touches file).length := by
    rw [← files_invalidate]
    exact (List.length_map Prod.fst).symm
  have whole : cache.size = cache.files.length := (List.length_map Prod.fst).symm
  unfold dropped
  have parts := List.length_eq_length_filter_add (l := cache.files) change.touches
  rw [sizes, whole]
  omega

inductive Use (α : Type) where
  | record (file : SourcePath) (result : α)
  | invalidate (change : Change)
  | clear

def use (cache : ResultCache α) : Use α → ResultCache α
  | .record file result => cache.record file result
  | .invalidate change => cache.invalidate change
  | .clear => empty

/-- Whether a use is about a file: about its result, or about all there is. -/
def Use.concerns (file : SourcePath) : Use α → Bool
  | .record held _ => held.same file
  | .invalidate change => change.touches file
  | .clear => true

def Use.result? : Use α → Option α
  | .record _ result => some result
  | .invalidate _ => none
  | .clear => none

theorem get?_use (step : Use α) (file : SourcePath) :
    (cache.use step).get? file = if step.concerns file then step.result? else cache.get? file := by
  cases step with
  | record held result => exact PathMap.find?_insert cache.results held result file
  | invalidate change => exact get?_invalidate cache change file
  | clear => rfl

/-! ### Whole histories -/

def after (uses : List (Use α)) : ResultCache α := uses.foldl use empty

theorem after_concat (uses : List (Use α)) (step : Use α) :
    after (uses ++ [step]) = (after uses).use step := by
  unfold after
  rw [List.foldl_append]
  rfl

variable {uses : List (Use α)} {file : SourcePath} {result : α}

/-- This was recorded for the file, and no later use concerns it. -/
def Recorded (uses : List (Use α)) (file : SourcePath) (result : α) : Prop :=
  ∃ before held later, uses = before ++ .record held result :: later ∧ held.same file = true ∧
    ∀ step ∈ later, step.concerns file = false

private theorem concat_eq_cut {before later : List (Use α)} {step middle : Use α}
    (cut : uses ++ [step] = before ++ middle :: later) :
    (step = middle ∧ later = []) ∨
      ∃ front, later = front ++ [step] ∧ uses = before ++ middle :: front := by
  rcases List.eq_nil_or_concat' later with none | ⟨front, last, ended⟩
  · rw [none] at cut
    exact Or.inl ⟨List.singleton_inj.mp (List.append_inj_right' cut rfl), none⟩
  · rw [ended, ← List.cons_append, ← List.append_assoc] at cut
    have same := List.singleton_inj.mp (List.append_inj_right' cut rfl)
    exact Or.inr ⟨front, same ▸ ended, List.append_inj_left' cut rfl⟩

theorem recorded_of_concerns {step : Use α} (concerned : step.concerns file = true) :
    Recorded (uses ++ [step]) file result ↔ step.result? = some result := by
  constructor
  · intro ⟨before, held, later, cut, _alike, apart⟩
    rcases concat_eq_cut cut with ⟨same, _last⟩ | ⟨front, ended, _rest⟩
    · rw [same]
      rfl
    · have unconcerned := apart step (ended ▸ List.mem_append_right front List.mem_cons_self)
      rw [concerned] at unconcerned
      cases unconcerned
  · intro recorded
    cases step with
    | record held found =>
        cases recorded
        exact ⟨uses, held, [], rfl, concerned, fun _ member => absurd member List.not_mem_nil⟩
    | invalidate change => cases recorded
    | clear => cases recorded

theorem recorded_of_apart {step : Use α} (apart : step.concerns file = false) :
    Recorded (uses ++ [step]) file result ↔ Recorded uses file result := by
  constructor
  · intro ⟨before, held, later, cut, alike, others⟩
    rcases concat_eq_cut cut with ⟨same, _last⟩ | ⟨front, ended, rest⟩
    · rw [same] at apart
      exact absurd (alike.symm.trans apart) Bool.noConfusion
    · exact ⟨before, held, front, rest, alike,
        fun other member => others other (ended ▸ List.mem_append_left [step] member)⟩
  · intro ⟨before, held, later, cut, alike, others⟩
    refine ⟨before, held, later ++ [step], ?_, alike, fun other member => ?_⟩
    · rw [cut, List.append_assoc, List.cons_append]
    · rcases List.mem_append.mp member with earlier | last
      · exact others other earlier
      · rw [List.mem_singleton.mp last]
        exact apart

/-- The cache answers with what was recorded last. -/
theorem get?_after : (after uses).get? file = some result ↔ Recorded uses file result := by
  induction uses using List.reverseRecOn with
  | nil =>
      refine ⟨fun found => ?_, fun ⟨before, held, later, cut, _⟩ => ?_⟩
      · cases found
      · cases before <;> cases cut
  | append_singleton uses step ih =>
      rw [after_concat, get?_use]
      cases concerned : step.concerns file with
      | true => rw [if_pos rfl, recorded_of_concerns concerned]
      | false => rw [if_neg Bool.false_ne_true, recorded_of_apart concerned, ih]

/-- A cache is the history of its uses. A file has the result that was recorded last, under any of
its spellings, if nothing has dropped it since. The files that are there stand in strictly ascending
order of their components, with their results beside them, and are counted. An invalidation drops
the files that it names, counts those of them that were there, and leaves all others as they are. -/
theorem history_tells_contents (uses : List (Use α)) :
    let cache := after uses
    (∀ file result, cache.get? file = some result ↔ Recorded uses file result) ∧
      (∀ file, cache.get? file = none ↔ ¬∃ result, Recorded uses file result) ∧
      cache.files.Pairwise
        (fun first second => compare first.components second.components = .lt) ∧
      (∀ file : SourcePath, file.components ∈ cache.files.map SourcePath.components ↔
        ∃ result, cache.get? file = some result) ∧
      cache.files.map cache.get? = cache.snapshot.map some ∧
      cache.size = cache.files.length ∧
      ∀ change : Change,
        cache.dropped change = (cache.files.filter change.touches).length ∧
          (cache.invalidate change).files = (cache.files.filter fun file => !change.touches file) ∧
          ∀ file, (cache.invalidate change).get? file =
            if change.touches file then none else cache.get? file := by
  intro cache
  refine ⟨fun file result => get?_after, fun file => ?_, cache.results.ascending_keys,
    fun file => ?_, cache.results.map_find?_keys, (List.length_map Prod.fst).symm, fun change =>
    ⟨dropped_eq cache change, files_invalidate cache change, get?_invalidate cache change⟩⟩
  · rw [Option.eq_none_iff_forall_ne_some, not_exists]
    exact forall_congr' fun result => not_congr get?_after
  · rw [← Option.isSome_iff_exists]
    refine Iff.trans ?_ PathMap.contains_iff_mem_keys.symm
    rw [List.mem_map]
    exact exists_congr fun held => and_congr_right fun _ => SourcePath.same_iff.symm

/-- A file that a change names as changed and as deleted is dropped once, under any spelling. -/
example :
    (after [.record ⟨"src/a.ts"⟩ 1, .record ⟨"src/b.ts"⟩ 2]).dropped
      ⟨PathSet.ofFiles [⟨"src//a.ts"⟩, ⟨"src/c.ts"⟩], PathSet.ofFiles [⟨"src/a.ts/"⟩]⟩ = 1 := by
  decide +kernel

end ResultCache

end Reanalysis
