/-
What maps hold. Two maps hold the same if they have the same values under the same files in the
same order, however the files are spelled; and that is so just if every lookup gives the same.
-/

import Mathlib.Data.List.Sort
import Reanalysis.Proofs.PathLookup

namespace Reanalysis

theorem Component.eq_of_mem_iff {Item : Type} (path : Item → List Component)
    {left right : List Item}
    (leftOrder : left.Pairwise fun first second => compare (path first) (path second) = .lt)
    (rightOrder : right.Pairwise fun first second => compare (path first) (path second) = .lt)
    (agree : ∀ item, item ∈ left ↔ item ∈ right) : left = right := by
  have irreflexive : Std.Irrefl fun first second => compare (path first) (path second) = .lt :=
    ⟨fun item before => by
      have equal : compare (path item) (path item) = .eq := Std.ReflCmp.compare_self
      rw [equal] at before
      cases before⟩
  have antisymmetric : Std.Antisymm fun first second => compare (path first) (path second) = .lt :=
    ⟨fun first second before after => by
      rw [Std.OrientedCmp.gt_iff_lt.mpr before] at after
      cases after⟩
  exact leftOrder.eq_of_mem_iff rightOrder agree

namespace SourcePath

theorem any_same_iff {files : List SourcePath} {file : SourcePath} :
    files.any (·.same file) = true ↔ file.components ∈ files.map components := by
  rw [List.any_eq_true, List.mem_map]
  exact exists_congr fun held => and_congr_right fun _ => same_iff

variable {left right : List SourcePath}

theorem mem_components_of_same
    (agree : ∀ file : SourcePath, left.any (·.same file) = right.any (·.same file))
    {parts : List Component} (member : parts ∈ left.map components) :
    parts ∈ right.map components := by
  obtain ⟨file, _, rfl⟩ := List.mem_map.mp member
  exact any_same_iff.mp ((agree file).symm.trans (any_same_iff.mpr member))

theorem components_eq_of_same (leftOrder : left.Pairwise precedes)
    (rightOrder : right.Pairwise precedes)
    (agree : ∀ file : SourcePath, left.any (·.same file) = right.any (·.same file)) :
    left.map components = right.map components :=
  Component.eq_of_mem_iff id (List.pairwise_map.mpr leftOrder) (List.pairwise_map.mpr rightOrder)
    fun _ => ⟨mem_components_of_same agree, mem_components_of_same fun file => (agree file).symm⟩

end SourcePath

namespace PathMap

variable {α : Type} {map left right : PathMap α} {key : SourcePath} {value : α}

theorem find?_eq_some_iff :
    map.find? key = some value ↔ ∃ held, (held, value) ∈ map.entries ∧ held.same key = true := by
  constructor
  · exact exists_of_lookup
  · rintro ⟨held, member, alike⟩
    rw [← find?_congr map alike]
    exact find?_of_mem map member

theorem isEmpty_iff : map.isEmpty = true ↔ ∀ key, map.find? key = none := by
  unfold isEmpty
  rw [List.isEmpty_iff, List.eq_nil_iff_forall_not_mem]
  constructor
  · intro empty key
    rw [Option.eq_none_iff_forall_ne_some]
    intro value found
    obtain ⟨held, member, _⟩ := find?_eq_some_iff.mp found
    exact empty _ member
  · intro missing entry member
    have found := find?_of_mem map member
    rw [missing] at found
    cases found

/-- The entries of a map without the spelling of their keys. -/
def contents (map : PathMap α) : List (List Component × α) :=
  map.entries.map fun entry => (entry.1.components, entry.2)

theorem mem_contents :
    (key.components, value) ∈ map.contents ↔ map.find? key = some value := by
  unfold contents
  rw [List.mem_map, find?_eq_some_iff]
  constructor
  · rintro ⟨⟨held, kept⟩, member, equal⟩
    obtain ⟨alike, rfl⟩ := Prod.mk.inj equal
    exact ⟨held, member, SourcePath.same_iff.mpr alike⟩
  · rintro ⟨held, member, alike⟩
    exact ⟨(held, value), member, by rw [SourcePath.same_iff.mp alike]⟩

theorem mem_contents_of_find? (agree : ∀ key, left.find? key = right.find? key)
    {item : List Component × α} (member : item ∈ left.contents) : item ∈ right.contents := by
  obtain ⟨⟨held, value⟩, present, rfl⟩ := List.mem_map.mp member
  exact mem_contents.mpr ((agree held).symm.trans (find?_of_mem left present))

theorem contents_eq_iff :
    left.contents = right.contents ↔ ∀ key, left.find? key = right.find? key := by
  constructor
  · intro equal key
    rw [Option.ext_iff]
    intro value
    rw [← mem_contents, ← mem_contents, equal]
  · intro agree
    exact Component.eq_of_mem_iff Prod.fst (List.pairwise_map.mpr left.ascending)
      (List.pairwise_map.mpr right.ascending) fun item =>
        ⟨mem_contents_of_find? agree, mem_contents_of_find? fun key => (agree key).symm⟩

end PathMap

theorem PathSet.contents_eq_iff {left right : PathSet} :
    left.contents = right.contents ↔ ∀ file, left.contains file = right.contains file := by
  refine PathMap.contents_eq_iff.trans (forall_congr' fun file => ?_)
  unfold PathMap.contains
  cases left.find? file <;> cases right.find? file <;> simp

end Reanalysis
