/-
Runs over shares. What the shares of a tree learn of a file is together what one survey learns
of it, for one share learns all there is and the others nothing.
-/

import Reanalysis.Proofs.Dealing
import Reanalysis.Proofs.IncrementalHistory

namespace Reanalysis

namespace Selection

variable {selection : Selection} {engine : SourcePath → String → List Issue}
  {tree : FileTree} {file key : SourcePath} {index count : Nat}

def surveyShare (selection : Selection) (engine : SourcePath → String → List Issue)
    (tree : FileTree) (count index : Nat) : Memory :=
  { Memory.new.learnAll (selection.finding engine tree)
      ((Partition.of index count).select (selection.inventory tree)) with fresh := false }

theorem position_unique {position other : Nat} {second : SourcePath}
    (atPosition : (selection.inventory tree)[position]? = some file)
    (atOther : (selection.inventory tree)[other]? = some second)
    (alike : file.same second = true) : position = other := by
  have pairs := List.pairwise_iff_getElem.mp (selection.inventory_apart tree)
  obtain ⟨inside, rfl⟩ := List.getElem?_eq_some_iff.mp atPosition
  obtain ⟨otherInside, rfl⟩ := List.getElem?_eq_some_iff.mp atOther
  rcases Nat.lt_trichotomy position other with before | same | after
  · rw [pairs position other inside otherInside before] at alike
    cases alike
  · exact same
  · have backwards := SourcePath.same_symm alike
    rw [pairs other position otherInside inside after] at backwards
    cases backwards

theorem get?_surveyShare (nonempty : 0 < count) {position : Nat}
    (atPosition : (selection.inventory tree)[position]? = some file)
    (alike : file.same key = true) :
    (selection.surveyShare engine tree count index).results.get? key =
      if position % count = index then selection.finding engine tree file else none := by
  have apart := (selection.inventory_apart tree).sublist
    ((Partition.of index count).select_sublist (selection.inventory tree))
  change (Memory.new.learnAll (selection.finding engine tree)
    ((Partition.of index count).select (selection.inventory tree))).results.get? key = _
  by_cases turn : position % count = index
  · have member : file ∈ (Partition.of index count).select (selection.inventory tree) :=
      Partition.mem_select.mpr
        ⟨position, atPosition, (Partition.contains_of position nonempty).mpr turn⟩
    rw [if_pos turn, Memory.get?_learnAll_of_mem apart member alike]
    exact Option.or_none
  · rw [if_neg turn]
    apply Memory.get?_learnAll_of_apart
    intro other member
    rw [Bool.eq_false_iff]
    intro otherAlike
    obtain ⟨otherPosition, atOther, contained⟩ := Partition.mem_select.mp member
    have equal := position_unique atPosition atOther
      (SourcePath.same_trans alike (SourcePath.same_symm otherAlike))
    rw [Partition.contains_of otherPosition nonempty, ← equal] at contained
    exact turn contained

theorem get?_surveyShare_of_apart
    (apart : ∀ file ∈ selection.inventory tree, file.same key = false) :
    (selection.surveyShare engine tree count index).results.get? key = none :=
  Memory.get?_learnAll_of_apart
    (fun file member => apart file ((Partition.select_sublist _ _).subset member))

theorem eq_of_get?_surveyShare (nonempty : 0 < count) {other : Nat}
    (known : (selection.surveyShare engine tree count index).results.get? key ≠ none)
    (otherKnown : (selection.surveyShare engine tree count other).results.get? key ≠ none) :
    index = other := by
  by_cases present : ∃ file ∈ selection.inventory tree, file.same key = true
  · obtain ⟨file, member, alike⟩ := present
    obtain ⟨position, atPosition⟩ := List.mem_iff_getElem?.mp member
    rw [get?_surveyShare nonempty atPosition alike] at known otherKnown
    by_cases turn : position % count = index
    · by_cases otherTurn : position % count = other
      · rw [← turn, ← otherTurn]
      · rw [if_neg otherTurn] at otherKnown
        cases otherKnown rfl
    · rw [if_neg turn] at known
      cases known rfl
  · have apart : ∀ file ∈ selection.inventory tree, file.same key = false :=
      fun file member => Bool.eq_false_iff.mpr (fun alike => present ⟨file, member, alike⟩)
    rw [get?_surveyShare_of_apart apart] at known
    cases known rfl

/-- All workers together learn of a file what one survey learns. -/
theorem flatMap_surveyShare (nonempty : 0 < count) (key : SourcePath) :
    (List.range count).flatMap (fun index =>
      ((selection.surveyShare engine tree count index).results.get? key).getD []) =
        ((selection.survey engine tree).results.get? key).getD [] := by
  by_cases present : ∃ file ∈ selection.inventory tree, file.same key = true
  · obtain ⟨file, member, alike⟩ := present
    obtain ⟨position, atPosition⟩ := List.mem_iff_getElem?.mp member
    have turns : (fun index =>
        ((selection.surveyShare engine tree count index).results.get? key).getD []) =
          fun index => if position % count = index
            then (selection.finding engine tree file).getD [] else [] := by
      funext index
      rw [get?_surveyShare nonempty atPosition alike]
      split <;> rfl
    rw [turns, flatMap_range_single (Nat.mod_lt _ nonempty), get?_survey member alike]
  · have apart : ∀ file ∈ selection.inventory tree, file.same key = false :=
      fun file member => Bool.eq_false_iff.mpr (fun alike => present ⟨file, member, alike⟩)
    rw [get?_survey_of_apart apart, Option.getD_none, List.flatMap_eq_nil_iff]
    intro index _member
    rw [get?_surveyShare_of_apart apart, Option.getD_none]

theorem exists_mem_select (nonempty : 0 < count) (member : file ∈ selection.inventory tree) :
    ∃ index < count, file ∈ (Partition.of index count).select (selection.inventory tree) := by
  obtain ⟨position, atPosition⟩ := List.mem_iff_getElem?.mp member
  exact ⟨position % count, Nat.mod_lt _ nonempty,
    Partition.mem_select.mpr
      ⟨position, atPosition, (Partition.contains_of position nonempty).mpr rfl⟩⟩

theorem filed_surveyShare (filing : Filing engine) :
    (selection.surveyShare engine tree count index).Filed :=
  filed_learnAll filing Memory.filed_new tree _

end Selection

def Issue.under (key : SourcePath) (issues : List Issue) : List Issue :=
  issues.filter (fun issue => issue.file.same key)

namespace Memory

private theorem find?_gather (issues : List Issue) (map : PathMap (List Issue))
    (key : SourcePath) :
    (issues.foldl (fun files issue =>
      files.upsert issue.file (fun held => held.getD [] ++ [issue])) map).find? key =
      if Issue.under key issues = [] then map.find? key
      else some ((map.find? key).getD [] ++ Issue.under key issues) := by
  induction issues generalizing map with
  | nil => rfl
  | cons issue rest ih =>
      rw [List.foldl_cons, ih, PathMap.find?_upsert]
      unfold Issue.under
      rw [List.filter_cons]
      cases alike : issue.file.same key with
      | false => rfl
      | true =>
          rw [if_pos rfl, if_pos rfl, PathMap.find?_congr map alike]
          simp only [List.cons_ne_nil, if_false, Option.getD_some, List.append_assoc,
            List.singleton_append]
          split
          · rename_i nothing
            rw [nothing]
          · rfl

theorem find?_byFile (issues : List Issue) (key : SourcePath) :
    (byFile issues).find? key =
      if Issue.under key issues = [] then none else some (Issue.under key issues) :=
  find?_gather issues PathMap.empty key

theorem seed_eq_learnAll (memory : Memory) (issues : List Issue) :
    memory.seed issues = memory.learnAll (byFile issues).find? (byFile issues).keys := by
  have general (entries : List (SourcePath × List Issue))
      (within : ∀ entry ∈ entries, entry ∈ (byFile issues).entries) (memory : Memory) :
      entries.foldl (fun memory entry => memory.record entry.1 entry.2) memory =
        memory.learnAll (byFile issues).find? (entries.map Prod.fst) := by
    induction entries generalizing memory with
    | nil => rfl
    | cons entry rest ih =>
        obtain ⟨file, found⟩ := entry
        have held : (byFile issues).find? file = some found :=
          PathMap.find?_of_mem _ (within _ List.mem_cons_self)
        have learns : memory.learn (byFile issues).find? file = memory.record file found := by
          unfold learn
          rw [held]
        rw [List.foldl_cons, ih (fun other member => within other (List.mem_cons_of_mem _ member)),
          List.map_cons]
        unfold learnAll
        rw [List.foldl_cons, learns]
  exact general (byFile issues).entries (fun entry member => member) memory

theorem seed_fields (memory : Memory) (issues : List Issue) :
    (memory.seed issues).pending = memory.pending ∧
      (memory.seed issues).fresh = memory.fresh := by
  rw [seed_eq_learnAll]
  exact learnAll_fields

theorem get?_seed (memory : Memory) (issues : List Issue) (key : SourcePath) :
    (memory.seed issues).results.get? key =
      if Issue.under key issues = [] then memory.results.get? key
      else some (Issue.under key issues) := by
  have atKey := find?_byFile issues key
  rw [seed_eq_learnAll]
  by_cases present : ∃ file ∈ (byFile issues).keys, file.same key = true
  · obtain ⟨file, member, alike⟩ := present
    obtain ⟨⟨held, found⟩, inEntries, rfl⟩ := List.mem_map.mp member
    have known := PathMap.find?_of_mem (byFile issues) inEntries
    rw [get?_learnAll_of_mem (byFile issues).keys_apart member alike, known, Option.some_or]
    rw [← PathMap.find?_congr (byFile issues) alike, known] at atKey
    split at atKey
    · cases atKey
    · rename_i some
      rw [if_neg some, atKey]
  · have absent : ∀ file ∈ (byFile issues).keys, file.same key = false :=
      fun file member => Bool.eq_false_iff.mpr (fun alike => present ⟨file, member, alike⟩)
    have unknown : (byFile issues).find? key = none := by
      rw [PathMap.find?_eq_lookup, PathMap.lookup_eq_none_iff]
      exact fun entry member => absent entry.1 (List.mem_map_of_mem member)
    rw [get?_learnAll_of_apart absent]
    rw [unknown] at atKey
    split at atKey
    · rename_i nothing
      rw [if_pos nothing]
    · cases atKey

end Memory

/-! ### Shares together -/

namespace Selection

variable {selection : Selection} {engine : SourcePath → String → List Issue}
  {tree : FileTree} {size : Nat}

def elsewhere (selection : Selection) (engine : SourcePath → String → List Issue)
    (tree : FileTree) (size : Nat) : List Issue :=
  (List.range' 1 size).flatMap fun number =>
    (selection.surveyShare engine tree (size + 1) number).issues

theorem filed_survey (filing : Filing engine) : (selection.survey engine tree).Filed :=
  filed_learnAll filing Memory.filed_new tree _

theorem beside_shares (filing : Filing engine) (place : Issue) :
    place.beside ((selection.surveyShare engine tree (size + 1) 0).issues ++
      selection.elsewhere engine tree size) =
        place.beside (((selection.survey engine tree).results.get? place.file).getD []) := by
  have all : (selection.surveyShare engine tree (size + 1) 0).issues ++
      selection.elsewhere engine tree size =
        (List.range (size + 1)).flatMap fun number =>
          (selection.surveyShare engine tree (size + 1) number).issues := by
    rw [List.range_eq_range', List.range'_succ, List.flatMap_cons]
    rfl
  rw [all, ← flatMap_surveyShare (Nat.succ_pos size), Issue.beside_flatMap, Issue.beside_flatMap]
  congr 1
  funext number
  exact (filed_surveyShare filing).beside_issues place

theorem sort_shares (filing : Filing engine) :
    Issue.sort ((selection.surveyShare engine tree (size + 1) 0).issues ++
      selection.elsewhere engine tree size) = (selection.survey engine tree).issues := by
  unfold Memory.issues
  rw [Issue.sort_eq_iff]
  intro place
  change place.beside ((selection.surveyShare engine tree (size + 1) 0).issues ++ _) = _
  rw [beside_shares filing, ← (filed_survey filing).beside_issues]
  unfold Memory.issues
  exact Issue.beside_sort place _

theorem under_elsewhere_eq_nil (filing : Filing engine) {key : SourcePath}
    (known : (selection.surveyShare engine tree (size + 1) 0).results.get? key ≠ none) :
    Issue.under key (selection.elsewhere engine tree size) = [] := by
  rw [List.eq_nil_iff_forall_not_mem]
  intro issue member
  obtain ⟨found, alike⟩ := List.mem_filter.mp member
  obtain ⟨number, inRange, reported⟩ := List.mem_flatMap.mp found
  obtain ⟨file, list, held, inList⟩ := Memory.mem_issues reported
  have underFile := filed_surveyShare filing file list held issue inList
  have sameFile := SourcePath.same_trans (SourcePath.same_symm underFile) alike
  have otherKnown : (selection.surveyShare engine tree (size + 1) number).results.get? key ≠
      none := by
    have atKey := (PathMap.find?_congr _ sameFile).symm.trans held
    intro unknown
    unfold ResultCache.get? at unknown
    rw [unknown] at atKey
    cases atKey
  have equal := eq_of_get?_surveyShare (Nat.succ_pos size) known otherKnown
  rw [List.mem_range'_1] at inRange
  omega

theorem beside_under {place : Issue} {key : SourcePath} (issues : List Issue) :
    place.beside (Issue.under key issues) =
      if place.file.same key then place.beside issues else [] := by
  cases alike : place.file.same key with
  | true =>
      unfold Issue.beside Issue.under
      rw [List.filter_filter, if_pos rfl]
      apply List.filter_congr
      intro issue _member
      cases equal : decide (issue.order place = .eq) with
      | false => rfl
      | true =>
          have sameFile := Issue.same_file_of_order (of_decide_eq_true equal)
          rw [SourcePath.same_trans sameFile alike]
          rfl
  | false =>
      rw [if_neg Bool.false_ne_true, List.eq_nil_iff_forall_not_mem]
      intro issue member
      obtain ⟨inUnder, equal⟩ := Issue.mem_beside.mp member
      have underKey := (List.mem_filter.mp inUnder).2
      have underPlace := SourcePath.same_symm (Issue.same_file_of_order equal)
      rw [SourcePath.same_trans underPlace underKey] at alike
      cases alike

/-- The first worker, once it has taken over what the others found, holds what a survey holds. -/
theorem sort_seeded (filing : Filing engine) (key : SourcePath) :
    Issue.sort ((((selection.surveyShare engine tree (size + 1) 0).seed
      (selection.elsewhere engine tree size)).results.get? key).getD []) =
        Issue.sort (((selection.survey engine tree).results.get? key).getD []) := by
  have own : (selection.surveyShare engine tree (size + 1) 0).Filed := filed_surveyShare filing
  have seeded : (((selection.surveyShare engine tree (size + 1) 0).seed
      (selection.elsewhere engine tree size)).results.get? key).getD [] =
        ((selection.surveyShare engine tree (size + 1) 0).results.get? key).getD [] ++
          Issue.under key (selection.elsewhere engine tree size) := by
    rw [Memory.get?_seed]
    by_cases known : (selection.surveyShare engine tree (size + 1) 0).results.get? key = none
    · rw [known, Option.getD_none, List.nil_append]
      split
      · rename_i nothing
        rw [nothing, Option.getD_none]
      · rfl
    · have nothing := under_elsewhere_eq_nil filing known
      rw [if_pos nothing, nothing, List.append_nil]
  have filedAt {memory : Memory} (filed : memory.Filed) (place : Issue) :
      place.beside ((memory.results.get? key).getD []) =
        if place.file.same key then place.beside memory.issues else [] := by
    have kept : Issue.under key ((memory.results.get? key).getD []) =
        (memory.results.get? key).getD [] := by
      unfold Issue.under
      rw [List.filter_eq_self]
      intro issue member
      cases held : memory.results.get? key with
      | none => rw [held] at member; cases member
      | some found =>
          rw [held] at member
          exact filed key found held issue member
    rw [← kept, beside_under]
    cases alike : place.file.same key with
    | false => rfl
    | true =>
        rw [if_pos rfl, if_pos rfl, filed.beside_issues]
        unfold ResultCache.get?
        rw [PathMap.find?_congr memory.results.results alike]
  rw [Issue.sort_eq_iff]
  intro place
  rw [seeded, Issue.beside_append, filedAt own, filedAt (filed_survey filing), beside_under]
  split
  · rw [← Issue.beside_append, beside_shares filing, (filed_survey filing).beside_issues]
  · rfl

end Selection

end Reanalysis
