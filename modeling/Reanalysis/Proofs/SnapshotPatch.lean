/-
What differs between two snapshots, taken as a patch. Each file of either has one fate; what is
gone, taken away, and what is new or altered, set to its hash, turns the one snapshot into the
other; and the way back has the same files, with new and gone exchanged.
-/

import Reanalysis.Proofs.ChangeContents
import Reanalysis.Proofs.MapContents
import Reanalysis.Snapshot

namespace Reanalysis

namespace Difference

variable {current previous : Snapshot} {file : SourcePath}

theorem any_keysWhere {test : SourcePath → Digest → Bool}
    (respects : ∀ {left right : SourcePath} (digest : Digest), left.same right = true →
      test left digest = test right digest) :
    (keysWhere current test).any (·.same file) = true ↔
      ∃ digest, current.find? file = some digest ∧ test file digest = true := by
  unfold keysWhere PathMap.keys PathMap.filter
  rw [List.any_map, List.any_eq_true]
  constructor
  · rintro ⟨⟨held, digest⟩, member, alike⟩
    obtain ⟨present, passes⟩ := List.mem_filter.mp member
    exact ⟨digest, PathMap.find?_eq_some_iff.mpr ⟨held, present, alike⟩,
      respects digest alike ▸ passes⟩
  · rintro ⟨digest, found, passes⟩
    obtain ⟨held, present, alike⟩ := PathMap.find?_eq_some_iff.mp found
    exact ⟨(held, digest), List.mem_filter.mpr ⟨present, (respects digest alike).trans passes⟩,
      alike⟩

theorem any_added :
    (between current previous).added.any (·.same file) = true ↔
      (current.find? file).isSome = true ∧ previous.find? file = none := by
  refine (any_keysWhere fun digest alike => ?_).trans ?_
  · rw [PathMap.find?_congr previous alike]
  · rw [Option.isSome_iff_exists, Option.isNone_iff_eq_none, exists_and_right]

theorem any_modified :
    (between current previous).modified.any (·.same file) = true ↔
      ∃ digest, current.find? file = some digest ∧
        ∃ old, previous.find? file = some old ∧ old ≠ digest := by
  refine (any_keysWhere fun digest alike => ?_).trans (exists_congr fun digest => ?_)
  · rw [PathMap.find?_congr previous alike]
  · rw [Option.any_eq_true]
    simp only [decide_eq_true_eq]

theorem any_deleted :
    (between current previous).deleted.any (·.same file) = true ↔
      (previous.find? file).isSome = true ∧ current.find? file = none := by
  refine (any_keysWhere fun digest alike => ?_).trans ?_
  · exact congrArg (!·) (congrArg Option.isSome (PathMap.find?_congr current alike))
  · unfold PathMap.contains
    rw [Option.isSome_iff_exists, Bool.not_eq_true', Option.isSome_eq_false_iff,
      Option.isNone_iff_eq_none, exists_and_right]

theorem any_unchanged :
    (between current previous).unchanged.any (·.same file) = true ↔
      ∃ digest, current.find? file = some digest ∧ previous.find? file = some digest := by
  refine (any_keysWhere fun digest alike => ?_).trans (exists_congr fun digest => ?_)
  · rw [PathMap.find?_congr previous alike]
  · rw [decide_eq_true_eq]

theorem changed_toChange :
    (between current previous).toChange.changed.contains file = true ↔
      ∃ digest, current.find? file = some digest ∧ previous.find? file ≠ some digest := by
  unfold toChange
  rw [Change.changed_ofFiles, List.any_append, Bool.and_eq_true, Bool.or_eq_true, any_added,
    any_modified, Bool.not_eq_true', Bool.eq_false_iff, Ne, any_deleted]
  cases current.find? file with
  | none => simp
  | some digest => cases previous.find? file <;> simp

theorem deleted_toChange :
    (between current previous).toChange.deleted.contains file = true ↔
      (previous.find? file).isSome = true ∧ current.find? file = none := by
  unfold toChange
  rw [Change.deleted_ofFiles, any_deleted]

end Difference

theorem Change.isEmpty_iff {change : Change} :
    change.isEmpty = true ↔ ∀ file, change.changed.contains file = false ∧
      change.deleted.contains file = false := by
  unfold isEmpty PathMap.contains
  rw [Bool.and_eq_true, PathMap.isEmpty_iff, PathMap.isEmpty_iff, ← forall_and]
  refine forall_congr' fun file => ?_
  rw [Option.isSome_eq_false_iff, Option.isSome_eq_false_iff, Option.isNone_iff_eq_none,
    Option.isNone_iff_eq_none]

namespace Difference

variable {current previous : Snapshot}

theorem isEmpty_toChange :
    (between current previous).toChange.isEmpty = true ↔
      ∀ file, current.find? file = previous.find? file := by
  rw [Change.isEmpty_iff]
  refine forall_congr' fun file => ?_
  rw [Bool.eq_false_iff, Bool.eq_false_iff, Ne, changed_toChange, Ne, deleted_toChange]
  cases current.find? file with
  | none => cases previous.find? file <;> simp
  | some digest => cases previous.find? file <;> simp [eq_comm]

theorem isEmpty_iff :
    (between current previous).isEmpty = true ↔
      (between current previous).toChange.isEmpty = true := by
  have nothing (files : List SourcePath) :
      files.isEmpty = true ↔ ∀ file, files.any (·.same file) = false := by
    rw [List.isEmpty_iff]
    constructor
    · rintro rfl file
      rfl
    · intro unnamed
      rw [List.eq_nil_iff_forall_not_mem]
      intro file member
      have named : files.any (·.same file) = true :=
        List.any_eq_true.mpr ⟨file, member, SourcePath.same_refl file⟩
      rw [unnamed] at named
      cases named
  rw [isEmpty_toChange]
  unfold isEmpty
  rw [Bool.and_eq_true, Bool.and_eq_true, nothing, nothing, nothing, ← forall_and, ← forall_and]
  refine forall_congr' fun file => ?_
  rw [Bool.eq_false_iff, Bool.eq_false_iff, Bool.eq_false_iff, Ne, Ne, Ne, any_added, any_modified,
    any_deleted]
  cases current.find? file with
  | none => cases previous.find? file <;> simp
  | some digest => cases previous.find? file <;> simp [eq_comm]

inductive Fate where
  | added
  | modified
  | deleted
  | unchanged
deriving DecidableEq

/-- What becomes of a file, by its hashes now and before. -/
def fate : Option Digest → Option Digest → Option Fate
  | none, none => none
  | some _, none => some .added
  | none, some _ => some .deleted
  | some digest, some old => some (if old = digest then .unchanged else .modified)

def files (difference : Difference) : Fate → List SourcePath
  | .added => difference.added
  | .modified => difference.modified
  | .deleted => difference.deleted
  | .unchanged => difference.unchanged

def Fate.swap : Fate → Fate
  | .added => .deleted
  | .modified => .modified
  | .deleted => .added
  | .unchanged => .unchanged

theorem fate_swap (now before : Option Digest) :
    fate before now = (fate now before).map Fate.swap := by
  cases now with
  | none => cases before <;> rfl
  | some digest =>
      cases before with
      | none => rfl
      | some old =>
          by_cases same : old = digest
          · simp [fate, Fate.swap, same]
          · simp [fate, Fate.swap, same, Ne.symm same]

theorem swap_swap (kind : Fate) : kind.swap.swap = kind := by
  cases kind <;> rfl

variable {file : SourcePath} {kind : Fate}

theorem any_files : ((between current previous).files kind).any (·.same file) = true ↔
    fate (current.find? file) (previous.find? file) = some kind := by
  have fates (old digest : Digest) : (if old = digest then Fate.unchanged else .modified) ≠ .added ∧
      (if old = digest then Fate.unchanged else .modified) ≠ .deleted := by
    split <;> exact ⟨nofun, nofun⟩
  cases kind with
  | added =>
      refine any_added.trans ?_
      cases current.find? file <;> cases previous.find? file <;> simp [fate, fates]
  | modified =>
      refine any_modified.trans ?_
      cases current.find? file <;> cases previous.find? file <;> simp [fate]
  | deleted =>
      refine any_deleted.trans ?_
      cases current.find? file <;> cases previous.find? file <;> simp [fate, fates]
  | unchanged =>
      refine any_unchanged.trans ?_
      cases current.find? file <;> cases previous.find? file <;> simp [fate]

theorem files_ascending : ((between current previous).files kind).Pairwise SourcePath.precedes := by
  cases kind <;> exact List.pairwise_map.mpr (PathMap.ascending _)

def Apart (left right : List SourcePath) : Prop :=
  ∀ first ∈ left, ∀ second ∈ right, first.same second = false

theorem files_apart {other : Fate} (different : kind ≠ other) :
    Apart ((between current previous).files kind) ((between current previous).files other) := by
  intro first inFirst second inSecond
  rw [Bool.eq_false_iff]
  intro alike
  have one := any_files.mp (List.any_eq_true.mpr ⟨first, inFirst, alike⟩)
  have two := any_files.mp (List.any_eq_true.mpr ⟨second, inSecond, SourcePath.same_refl second⟩)
  exact different (Option.some.inj (one.symm.trans two))

/-! ### The files of both snapshots -/

private theorem filter_thrice {Item : Type} (first second third : Item → Bool) (items : List Item)
    (apart : ∀ item, second item = true → first item = false)
    (rest : ∀ item, third item = (!second item && !first item)) :
    (items.filter first ++ (items.filter second ++ items.filter third)).Perm items := by
  have others := List.filter_append_perm second (items.filter fun item => !first item)
  rw [List.filter_filter, List.filter_filter] at others
  have atSecond : (fun item => second item && !first item) = second := by
    funext item
    cases here : second item with
    | false => rfl
    | true => rw [apart item here]; rfl
  rw [atSecond, ← funext rest] at others
  exact (others.append_left _).trans (List.filter_append_perm first items)

theorem keys_perm : ((between current previous).added ++ ((between current previous).modified ++
    (between current previous).unchanged)).Perm current.keys := by
  unfold between keysWhere PathMap.keys PathMap.filter
  dsimp only
  rw [← List.map_append, ← List.map_append]
  refine List.Perm.map Prod.fst
    (filter_thrice _ _ _ current.entries (fun entry altered => ?_) fun entry => ?_)
  · cases found : previous.find? entry.1 with
    | none => rw [found] at altered; cases altered
    | some old => rfl
  · cases previous.find? entry.1 <;> simp

theorem components_files_swap (kind : Fate) :
    ((between previous current).files kind.swap).map SourcePath.components =
      ((between current previous).files kind).map SourcePath.components := by
  refine SourcePath.components_eq_of_same files_ascending files_ascending fun file => ?_
  rw [Bool.eq_iff_iff, any_files, any_files, fate_swap, Option.map_eq_some_iff]
  constructor
  · rintro ⟨own, found, undone⟩
    rw [found, ← swap_swap own, undone, swap_swap]
  · intro found
    exact ⟨kind, found, rfl⟩

theorem added_swap : (between previous current).added = (between current previous).deleted := by
  change keysWhere previous _ = keysWhere previous _
  refine congrArg (keysWhere previous) (funext fun file => funext fun _ => ?_)
  exact (Option.not_isSome _).symm

/-- The files of the second snapshot are gone, altered or as before. -/
theorem keys_previous_perm : (((between current previous).deleted ++
    ((between current previous).modified ++ (between current previous).unchanged)).map
      SourcePath.components).Perm (previous.keys.map SourcePath.components) := by
  have back : ((between previous current).added ++ ((between previous current).modified ++
      (between previous current).unchanged)).Perm previous.keys := keys_perm
  have paths := back.map SourcePath.components
  have modified : (between previous current).modified.map SourcePath.components =
      (between current previous).modified.map SourcePath.components :=
    components_files_swap .modified
  have unchanged : (between previous current).unchanged.map SourcePath.components =
      (between current previous).unchanged.map SourcePath.components :=
    components_files_swap .unchanged
  rw [added_swap, List.map_append, List.map_append, modified, unchanged] at paths
  rwa [List.map_append, List.map_append]

end Difference

namespace Snapshot

open SourcePath (components precedes)

/-- What becomes of the files of a snapshot if those that were deleted are taken away, and those
that were changed are set to their hashes in another one. -/
def patch (previous : Snapshot) (change : Change) (current : Snapshot) : Snapshot :=
  change.changed.files.foldl
    (fun patched file => (current.find? file).elim patched (patched.insert file))
    (change.deleted.files.foldl PathMap.erase previous)

theorem find?_setAll (current : Snapshot) (files : List SourcePath) (map : Snapshot)
    (key : SourcePath) :
    (files.foldl (fun patched file => (current.find? file).elim patched (patched.insert file))
        map).find? key =
      if files.any (·.same key) then (current.find? key).or (map.find? key) else map.find? key := by
  induction files generalizing map with
  | nil => rfl
  | cons file rest ih =>
      have step : ((current.find? file).elim map (map.insert file)).find? key =
          if file.same key then (current.find? key).or (map.find? key) else map.find? key := by
        cases alike : file.same key with
        | true =>
            rw [PathMap.find?_congr current alike]
            cases current.find? key with
            | none => rfl
            | some digest =>
                exact (PathMap.find?_insert map file digest key).trans (if_pos alike)
        | false =>
            cases current.find? file with
            | none => rfl
            | some digest =>
                refine (PathMap.find?_insert map file digest key).trans ?_
                rw [alike]
                rfl
      rw [List.foldl_cons, ih, step, List.any_cons]
      cases file.same key <;> cases rest.any (·.same key) <;> simp [← Option.or_assoc]

/-- The change between two snapshots turns the one into the other. -/
theorem contents_patch (current previous : Snapshot) :
    (previous.patch (Difference.between current previous).toChange current).contents =
      current.contents := by
  rw [PathMap.contents_eq_iff]
  intro key
  rw [patch, find?_setAll, PathMap.find?_eraseAll, PathSet.any_same_files, PathSet.any_same_files]
  simp only [Difference.changed_toChange, Difference.deleted_toChange]
  cases current.find? key with
  | none => cases previous.find? key <;> simp
  | some digest => by_cases same : previous.find? key = some digest <;> simp [same]

/-- What differs between two snapshots accounts for each file of either once, and it turns the
second snapshot into the first. -/
theorem difference_patches (current previous : Snapshot) :
    let difference := Difference.between current previous
    let lists := [difference.added, difference.modified, difference.deleted, difference.unchanged]
    ((∀ files ∈ lists, files.Pairwise precedes) ∧ lists.Pairwise Difference.Apart) ∧
      (difference.added ++ (difference.modified ++ difference.unchanged)).Perm current.keys ∧
      ((difference.deleted ++ (difference.modified ++ difference.unchanged)).map components).Perm
        (previous.keys.map components) ∧
      (difference.isEmpty = true ↔ current.contents = previous.contents) ∧
      ((∀ file ∈ difference.toChange.changed.files, (current.find? file).isSome = true) ∧
        (previous.patch difference.toChange current).contents = current.contents) ∧
      let back := Difference.between previous current
      (back.added = difference.deleted ∧ back.deleted = difference.added) ∧
        back.modified.map components = difference.modified.map components ∧
        back.unchanged.map components = difference.unchanged.map components := by
  have ascending : ∀ files ∈ [.added, .modified, .deleted, .unchanged].map
      (Difference.between current previous).files, files.Pairwise precedes :=
    List.forall_mem_map.mpr fun kind _ => Difference.files_ascending
  have apart : ([.added, .modified, .deleted, .unchanged].map
      (Difference.between current previous).files).Pairwise Difference.Apart := by
    refine List.pairwise_map.mpr (List.Pairwise.imp Difference.files_apart ?_)
    decide
  have hashed : ∀ file ∈ (Difference.between current previous).toChange.changed.files,
      (current.find? file).isSome = true := by
    intro file member
    obtain ⟨digest, found, _⟩ := Difference.changed_toChange.mp (PathSet.contains_of_mem member)
    rw [found]
    rfl
  refine ⟨⟨ascending, apart⟩, Difference.keys_perm, Difference.keys_previous_perm, ?_,
    ⟨hashed, contents_patch current previous⟩, ⟨Difference.added_swap, Difference.added_swap.symm⟩,
    Difference.components_files_swap .modified, Difference.components_files_swap .unchanged⟩
  rw [PathMap.contents_eq_iff, Difference.isEmpty_iff, Difference.isEmpty_toChange]

end Snapshot

end Reanalysis
