/-
What changes name. After every operation on changes a file counts as changed if some
operand named it so and none named it as deleted. Nothing else is named, and no
operation respells a file.
-/

import Reanalysis.Proofs.PathLookup

namespace Reanalysis

theorem PathMap.eq_of_entries {α : Type} {left right : PathMap α}
    (equal : left.entries = right.entries) : left = right := by
  obtain ⟨entries, ascending⟩ := left
  cases equal
  rfl

theorem PathSet.addAll_later (set : PathSet) {rest : List (SourcePath × Unit)}
    (ascending : (set.entries ++ rest).Pairwise PathMap.Before) :
    (set.addAll (rest.map Prod.fst)).entries = set.entries ++ rest := by
  induction rest generalizing set with
  | nil => exact (List.append_nil _).symm
  | cons entry rest ih =>
      obtain ⟨file, value⟩ := entry
      have last : ∀ held ∈ set.entries, held.1.precedes file := fun held member =>
        (List.pairwise_append.mp ascending).2.2 held member (file, value) List.mem_cons_self
      have placed : (PathMap.insert set file ()).entries = set.entries ++ [(file, ())] :=
        (PathMap.upsert_entries set file _).trans (PathMap.place_of_last last)
      rw [List.append_cons] at ascending ⊢
      rw [← placed] at ascending ⊢
      exact ih (PathMap.insert set file ()) ascending

theorem PathSet.addAll_files (set : PathSet) : PathSet.addAll PathMap.empty set.files = set :=
  PathMap.eq_of_entries (PathSet.addAll_later PathMap.empty set.ascending)

namespace Change

theorem accumulate_empty (change : Change) :
    (PendingChanges.empty.accumulate change).pending = change.deletionWins := by
  change deletionWins ⟨PathSet.addAll PathMap.empty change.changed.files,
    PathSet.addAll PathMap.empty change.deleted.files⟩ = change.deletionWins
  rw [PathSet.addAll_files, PathSet.addAll_files]

variable (change other : Change) (file : SourcePath)

theorem changed_deletionWins :
    change.deletionWins.changed.contains file =
      (change.changed.contains file && !change.deleted.contains file) := by
  apply PathSet.contains_filter change.changed (fun held => !change.deleted.contains held)
  intro left right alike
  rw [PathSet.contains_congr change.deleted alike]

theorem deleted_merge :
    (change.merge other).deleted.contains file =
      (change.deleted.contains file || other.deleted.contains file) := by
  change (change.deleted.addAll other.deleted.files).contains file = _
  rw [PathSet.contains_addAll, PathSet.any_same_files]

theorem changed_merge :
    (change.merge other).changed.contains file =
      ((change.changed.contains file || other.changed.contains file) &&
        !(change.merge other).deleted.contains file) := by
  refine (changed_deletionWins _ file).trans ?_
  change ((change.changed.addAll other.changed.files).contains file && _) = _
  rw [PathSet.contains_addAll, PathSet.any_same_files]
  rfl

theorem mem_changed_merge {change other : Change} {file : SourcePath}
    (member : file ∈ (change.merge other).changed.files) :
    file ∈ change.changed.files ∨ file ∈ other.changed.files :=
  PathSet.mem_files_addAll (PathSet.mem_files_filter member)

theorem deleted_ofFiles (changed deleted : List SourcePath) :
    (ofFiles changed deleted).deleted.contains file = deleted.any (·.same file) := by
  change (PathSet.addAll PathMap.empty deleted).contains file = _
  rw [PathSet.contains_addAll]
  rfl

theorem changed_ofFiles (changed deleted : List SourcePath) :
    (ofFiles changed deleted).changed.contains file =
      (changed.any (·.same file) && !deleted.any (·.same file)) := by
  refine (changed_deletionWins _ file).trans ?_
  change ((empty.withChanged changed).changed.contains file &&
    !(ofFiles changed deleted).deleted.contains file) = _
  rw [deleted_ofFiles]
  congr 1
  refine (changed_deletionWins _ file).trans ?_
  change ((PathSet.addAll PathMap.empty changed).contains file && _) = _
  rw [PathSet.contains_addAll]
  exact Bool.and_true _

theorem mem_changed_ofFiles {changed deleted : List SourcePath} {file : SourcePath}
    (member : file ∈ (ofFiles changed deleted).changed.files) : file ∈ changed := by
  have inChanged : file ∈ (empty.withChanged changed).changed.files :=
    PathSet.mem_files_filter member
  rcases PathSet.mem_files_addAll (PathSet.mem_files_filter inChanged) with before | given
  · cases before
  · exact given

end Change

end Reanalysis
