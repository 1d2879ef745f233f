/-
Finding files and judging paths. Everything that discovery comes upon is selected, and it
comes upon every selected file; below an included directory it takes whatever does not show
as a directory for a file.
-/

import Mathlib.Data.List.Induction
import Reanalysis.Selection
import Reanalysis.Proofs.FollowedPaths

namespace Reanalysis

open SourcePath

namespace Selection

/-- A selection under an absolute root whose included entries are plain. -/
structure Regular (selection : Selection) : Prop where
  absolute : selection.root.isAbsolute = true
  plain : ∀ entry ∈ selection.included, entry.Plain

private theorem exists_names {parts : List Component}
    (named : ∀ part ∈ parts, ∃ name, part = .name name) :
    ∃ names : List String, parts = names.map Component.name := by
  induction parts with
  | nil => exact ⟨[], rfl⟩
  | cons part rest ih =>
      obtain ⟨name, here⟩ := named part List.mem_cons_self
      obtain ⟨names, later⟩ := ih (fun other member => named other (List.mem_cons_of_mem _ member))
      exact ⟨name :: names, by rw [here, later]; rfl⟩

theorem filter_components {path : SourcePath} (relative : path.isAbsolute = false) :
    path.components.filter (· ≠ .here) = steps path.text.toList := by
  have kept : (steps path.text.toList).filter (· ≠ .here) = steps path.text.toList :=
    List.filter_eq_self.mpr
      (fun part member => decide_eq_true (isStep_of_mem_steps member).ne_here)
  rw [components_eq, relative, if_neg Bool.false_ne_true, List.filter_append, kept]
  split <;> rfl

theorem plain_normalize {path : SourcePath} (relative : path.isAbsolute = false)
    (noParent : .parent ∉ path.components) : path.normalize.Plain := by
  have named : ∀ part ∈ steps path.text.toList, ∃ name, part = .name name := by
    intro part member
    have step := isStep_of_mem_steps member
    cases part with
    | root => exact absurd rfl step.ne_root
    | here => exact absurd rfl step.ne_here
    | parent =>
        refine absurd ?_ noParent
        rw [components_eq]
        exact List.mem_append_right _ member
    | name name => exact ⟨name, rfl⟩
  obtain ⟨names, written⟩ := exists_names named
  refine ⟨names, ?_, ?_⟩
  · intro name member
    apply isStep_of_mem_steps
    rw [written]
    exact List.mem_map_of_mem member
  · unfold SourcePath.normalize
    rw [filter_components relative, written]

theorem of_regular {root : SourcePath} (included excluded extensions : List String)
    (absolute : root.isAbsolute = true)
    (plain : ∀ text ∈ included, (SourcePath.mk text).isAbsolute = false ∧
      .parent ∉ (SourcePath.mk text).components) :
    (of root included excluded extensions).Regular := by
  refine ⟨absolute, ?_⟩
  intro entry member
  obtain ⟨text, given, rfl⟩ := List.mem_map.mp member
  obtain ⟨relative, noParent⟩ := plain text given
  exact plain_normalize relative noParent

variable {selection : Selection}

theorem selects_congr {left right : SourcePath}
    (equal : selection.relative left = selection.relative right) :
    selection.selects left = selection.selects right := by
  unfold selects
  rw [equal]

theorem selects_of_same {left right : SourcePath} (alike : left.same right = true) :
    selection.selects left = selection.selects right := by
  apply selects_congr
  unfold relative below startsWith
  rw [same_iff.mp alike]

theorem relative_of_components {path : SourcePath} {parts : List Component}
    (allSteps : ∀ part ∈ parts, IsStep part)
    (below : path.components = selection.root.components ++ parts) :
    selection.relative path = parts := by
  have starts : path.startsWith selection.root = true := by
    unfold startsWith
    rw [below]
    exact List.isPrefixOf_iff_prefix.mpr (List.prefix_append _ _)
  unfold relative SourcePath.below
  rw [starts, if_pos rfl, below, List.drop_left, Option.getD_some]
  exact List.filter_eq_self.mpr (fun part member => decide_eq_true (allSteps part member).ne_here)

theorem relative_ofComponents (absolute : selection.root.isAbsolute = true)
    {parts : List Component} (allSteps : ∀ part ∈ parts, IsStep part) :
    selection.relative (ofComponents parts) = parts := by
  have apart : (ofComponents parts).startsWith selection.root = false := by
    unfold startsWith
    rw [components_ofComponents allSteps, components_of_absolute absolute]
    cases parts with
    | nil => rfl
    | cons part rest =>
        rw [List.isPrefixOf_cons_cons, Bool.and_eq_false_iff]
        exact Or.inl (beq_eq_false_iff_ne.mpr (allSteps part List.mem_cons_self).ne_root.symm)
  unfold relative SourcePath.below
  rw [apart, if_neg Bool.false_ne_true, Option.getD_none, components_ofComponents allSteps]
  exact List.filter_eq_self.mpr (fun part member => decide_eq_true (allSteps part member).ne_here)

theorem selects_join (absolute : selection.root.isAbsolute = true) {parts : List Component}
    (allSteps : ∀ part ∈ parts, IsStep part) :
    selection.selects (selection.root.join (ofComponents parts)) =
      selection.selects (ofComponents parts) := by
  apply selects_congr
  rw [relative_ofComponents absolute allSteps]
  apply relative_of_components allSteps
  rw [components_join absolute (ofComponents_relative allSteps), steps_ofComponents allSteps]

/-! ### What is found -/

theorem isStep_of_below_absolute {base path : SourcePath} {parts : List Component}
    (absolute : base.isAbsolute = true) (below : path.components = base.components ++ parts) :
    ∀ part ∈ parts, IsStep part := by
  rw [components_of_absolute absolute, List.cons_append] at below
  have pathAbsolute : path.isAbsolute = true := by
    cases kind : path.isAbsolute with
    | true => rfl
    | false =>
        have atFront : Component.root ∈ path.components := by
          rw [below]
          exact List.mem_cons_self
        rw [components_eq, kind, if_neg Bool.false_ne_true] at atFront
        rcases List.mem_append.mp atFront with inFront | inSteps
        · split at inFront <;> simp at inFront
        · exact absurd rfl (isStep_of_mem_steps inSteps).ne_root
  rw [components_of_absolute pathAbsolute] at below
  intro part member
  have inSteps : part ∈ steps path.text.toList := by
    rw [(List.cons.inj below).2]
    exact List.mem_append_right _ member
  exact isStep_of_mem_steps inSteps

variable {tree : FileTree} {file : SourcePath}

/-- One step of a search: a directory that cannot be listed ends it, and every name that is not
hidden leads on or is judged. -/
theorem mem_search_succ {depth : Nat} {path : SourcePath} {place : Place}
    {sighting : Except ConfigError SourcePath} :
    sighting ∈ selection.search tree (depth + 1) path place ↔
      (tree.isOpenAt place = false ∧ sighting = .error (.unreadable path .permissionDenied)) ∨
      (tree.isOpenAt place = true ∧ ∃ name ∈ tree.entries place, isHiddenName name = false ∧
        ((∃ below, tree.directoryAt? (path.join ⟨name⟩) = some below ∧
            sighting ∈ selection.search tree depth (path.join ⟨name⟩) below) ∨
          (tree.directoryAt? (path.join ⟨name⟩) = none ∧
            selection.selects (path.join ⟨name⟩) = true ∧
            ∃ rest, (path.join ⟨name⟩).components = selection.root.components ++ rest ∧
              sighting = .ok (ofComponents rest)))) := by
  rw [search]
  cases tree.isOpenAt place with
  | false => simp
  | true =>
      rw [Bool.not_true, if_neg Bool.false_ne_true, List.mem_flatMap]
      simp only [Bool.true_eq_false, false_and, false_or, true_and]
      refine exists_congr fun name => and_congr_right fun _listed => ?_
      cases isHiddenName name with
      | true => simp
      | false =>
          rw [if_neg Bool.false_ne_true, eq_self, true_and]
          cases tree.directoryAt? (path.join ⟨name⟩) with
          | some below => simp
          | none =>
              cases selection.selects (path.join ⟨name⟩) with
              | false => simp
              | true =>
                  dsimp only
                  rw [if_pos rfl, List.mem_map]
                  constructor
                  · rintro ⟨held, inside, rfl⟩
                    obtain ⟨parts, under, rfl⟩ :=
                      Option.map_eq_some_iff.mp (Option.mem_toList.mp inside)
                    exact Or.inr ⟨rfl, rfl, parts, below_eq_some.mp under, rfl⟩
                  · rintro (⟨below, nothing, _⟩ | ⟨_, _, rest, extended, rfl⟩)
                    · cases nothing
                    · rw [below_eq_some.mpr extended]
                      exact ⟨_, List.mem_singleton.mpr rfl, rfl⟩

/-- What an included entry leads to: itself, if it is a file, or what a search below it comes
upon. -/
theorem mem_found {entry : SourcePath} {sighting : Except ConfigError SourcePath} :
    sighting ∈ selection.found tree entry ↔
      (tree.directoryAt? (selection.root.join entry) = none ∧
        tree.isFile (selection.root.join entry) = true ∧
        selection.selects (selection.root.join entry) = true ∧ sighting = .ok entry) ∨
      ∃ place, tree.directoryAt? (selection.root.join entry) = some place ∧
        sighting ∈ selection.search tree FileTree.pathLimit (selection.root.join entry) place := by
  unfold found
  dsimp only
  cases tree.directoryAt? (selection.root.join entry) with
  | some place => simp
  | none =>
      dsimp only
      split
      · rename_i taken
        rw [Bool.and_eq_true] at taken
        simp [taken]
      · rename_i refused
        rw [Bool.and_eq_true, not_and] at refused
        simp
        exact fun isFile selected => absurd selected (refused isFile)

theorem of_mem_search {depth : Nat} {path : SourcePath} {place : Place}
    (member : .ok file ∈ selection.search tree depth path place) :
    ∃ next rest, selection.selects next = true ∧
      next.components = selection.root.components ++ rest ∧ file = ofComponents rest := by
  induction depth generalizing path place with
  | zero => cases member
  | succ depth ih =>
      rcases mem_search_succ.mp member with ⟨_locked, same⟩ | ⟨_opened, name, _listed, _shown, kind⟩
      · cases same
      · rcases kind with ⟨below, _directory, later⟩ | ⟨_nowhere, selected, rest, extended, same⟩
        · exact ih later
        · cases same
          exact ⟨_, rest, selected, extended, rfl⟩

theorem of_mem_found (regular : selection.Regular) {entry : SourcePath}
    (included : entry ∈ selection.included) (member : .ok file ∈ selection.found tree entry) :
    selection.selects file = true ∧ file.Written := by
  rcases mem_found.mp member with ⟨_none, _isFile, joined, same⟩ | ⟨place, _directory, later⟩
  · cases same
    obtain ⟨names, each, written⟩ := regular.plain file included
    have namesSteps := isStep_names each
    rw [written, selects_join regular.absolute namesSteps, ← written] at joined
    exact ⟨joined, names.map Component.name, namesSteps, written⟩
  · obtain ⟨next, rest, judged, extended, rfl⟩ := of_mem_search later
    have allSteps := isStep_of_below_absolute regular.absolute extended
    refine ⟨?_, rest, allSteps, rfl⟩
    rw [selects_congr ((relative_ofComponents regular.absolute allSteps).trans
      (relative_of_components allSteps extended).symm)]
    exact judged

/-- All files that discovery comes upon, in file order. It ends with them, unless a directory
cannot be listed. -/
def inventory (selection : Selection) (tree : FileTree) : List SourcePath :=
  (PathSet.ofFiles
    ((selection.included.flatMap (selection.found tree)).filterMap Except.toOption)).files

/-- Whether all directories that discovery searches can be listed. -/
def Explorable (selection : Selection) (tree : FileTree) : Prop :=
  selection.discover tree = .ok (selection.inventory tree)

instance : Decidable (selection.Explorable tree) :=
  inferInstanceAs (Decidable (selection.discover tree = .ok (selection.inventory tree)))

theorem mapM_cases {α β ε : Type} (step : α → Except ε β) (items : List α) :
    (items.mapM step = .ok (items.filterMap fun item => (step item).toOption) ∧
        ∀ item ∈ items, ∃ value, step item = .ok value) ∨
      ∃ error, items.mapM step = .error error ∧ ∃ item ∈ items, step item = .error error := by
  induction items with
  | nil => exact Or.inl ⟨rfl, fun _ member => nomatch member⟩
  | cons item rest ih =>
      rw [List.mapM_cons]
      cases here : step item with
      | error cause => exact Or.inr ⟨cause, rfl, item, List.mem_cons_self, here⟩
      | ok value =>
          rcases ih with ⟨same, all⟩ | ⟨error, failed, other, member, there⟩
          · left
            constructor
            · rw [same, List.filterMap_cons, here]
              rfl
            · exact List.forall_mem_cons.mpr ⟨⟨value, here⟩, all⟩
          · refine Or.inr ⟨error, ?_, other, List.mem_cons_of_mem _ member, there⟩
            rw [failed]
            rfl

theorem discover_cases (selection : Selection) (tree : FileTree) :
    selection.Explorable tree ∨
      ∃ error, selection.discover tree = .error error ∧
        ∃ entry ∈ selection.included, .error error ∈ selection.found tree entry := by
  unfold Explorable discover inventory
  rcases mapM_cases id (selection.included.flatMap (selection.found tree)) with
    ⟨same, _all⟩ | ⟨error, failed, _sighting, member, rfl⟩
  · left
    rw [same]
    rfl
  · obtain ⟨entry, included, sighted⟩ := List.mem_flatMap.mp member
    refine Or.inr ⟨error, ?_, entry, included, sighted⟩
    rw [failed]
    rfl

theorem explorable_of_discover {files : List SourcePath}
    (found : selection.discover tree = .ok files) : selection.Explorable tree := by
  rcases discover_cases selection tree with explorable | ⟨error, failed, _sighted⟩
  · exact explorable
  · rw [failed] at found
    cases found

theorem of_error_mem_search {depth : Nat} {path : SourcePath} {place : Place} {error : ConfigError}
    (start : tree.directoryAt? path = some place)
    (member : .error error ∈ selection.search tree depth path place) :
    ∃ directory locked, error = .unreadable directory .permissionDenied ∧
      tree.directoryAt? directory = some locked ∧
        tree.find? locked = some .lockedDirectory := by
  induction depth generalizing path place with
  | zero => cases member
  | succ depth ih =>
      rcases mem_search_succ.mp member with ⟨closed, same⟩ | ⟨_opened, name, _listed, _shown, kind⟩
      · cases same
        refine ⟨path, place, rfl, start, ?_⟩
        exact FileTree.find?_of_closed (FileTree.isDirectoryAt_of_directoryAt? start).1 closed
      · rcases kind with ⟨below, directory, later⟩ | ⟨_nowhere, _selected, rest, _extended, same⟩
        · exact ih directory later
        · cases same

/-- Discovery fails for nothing but a directory that it may not list. -/
theorem of_discover_error {error : ConfigError} (failed : selection.discover tree = .error error) :
    ∃ directory locked, error = .unreadable directory .permissionDenied ∧
      tree.directoryAt? directory = some locked ∧
        tree.find? locked = some .lockedDirectory := by
  rcases discover_cases selection tree with explorable | ⟨cause, same, entry, _included, sighted⟩
  · rw [Explorable, failed] at explorable
    cases explorable
  · rw [failed] at same
    cases same
    rcases mem_found.mp sighted with ⟨_none, _isFile, _joined, same⟩ | ⟨place, directory, later⟩
    · cases same
    · exact of_error_mem_search directory later

theorem explorable_of_unlocked (unlocked : ∀ entry ∈ tree.nodes, entry.2 ≠ .lockedDirectory) :
    selection.Explorable tree := by
  rcases discover_cases selection tree with explorable | ⟨error, failed, _sighted⟩
  · exact explorable
  · obtain ⟨_directory, locked, _same, _there, node⟩ := of_discover_error failed
    have below : locked ≠ [] := by
      rintro rfl
      cases node
    exact absurd rfl (unlocked _ (FileTree.mem_nodes_of_find? below node))

theorem found_of_mem_inventory (member : file ∈ selection.inventory tree) :
    ∃ entry ∈ selection.included, .ok file ∈ selection.found tree entry := by
  rcases PathSet.mem_files_addAll member with before | given
  · cases before
  · obtain ⟨sighting, sighted, same⟩ := List.mem_filterMap.mp given
    cases sighting with
    | error cause => cases same
    | ok held =>
        cases same
        exact List.mem_flatMap.mp sighted

theorem mem_inventory_of_found (regular : selection.Regular) {entry : SourcePath}
    (included : entry ∈ selection.included) (member : .ok file ∈ selection.found tree entry) :
    file ∈ selection.inventory tree := by
  have contained : (PathSet.ofFiles ((selection.included.flatMap
      (selection.found tree)).filterMap Except.toOption)).contains file = true := by
    unfold PathSet.ofFiles
    rw [PathSet.contains_addAll, Bool.or_eq_true, List.any_eq_true]
    exact Or.inr ⟨file, List.mem_filterMap.mpr
      ⟨_, List.mem_flatMap.mpr ⟨entry, included, member⟩, rfl⟩, same_refl file⟩
  obtain ⟨held, present, alike⟩ := (PathSet.contains_iff _ _).mp contained
  obtain ⟨other, otherIncluded, otherFound⟩ := found_of_mem_inventory present
  have heldWritten := (of_mem_found regular otherIncluded otherFound).2
  have written := (of_mem_found regular included member).2
  rw [← heldWritten.eq_of_same written alike]
  exact present

theorem of_mem_inventory (regular : selection.Regular) (member : file ∈ selection.inventory tree) :
    selection.selects file = true ∧ file.Written := by
  obtain ⟨entry, included, inFound⟩ := found_of_mem_inventory member
  exact of_mem_found regular included inFound

theorem included_of_selects (regular : selection.Regular) {names : List String}
    (allSteps : ∀ part ∈ names.map Component.name, IsStep part)
    (selected : selection.selects (ofComponents (names.map Component.name)) = true) :
    names.any isHiddenName = false ∧
      ∃ above rest : List String, names = above ++ rest ∧
        ofComponents (above.map Component.name) ∈ selection.included := by
  unfold selects at selected
  rw [relative_ofComponents regular.absolute allSteps] at selected
  simp only [Bool.and_eq_true] at selected
  obtain ⟨⟨⟨⟨_notRoot, visible⟩, _extension⟩, within⟩, _notExcluded⟩ := selected
  constructor
  · have same : names.any isHiddenName = (names.map Component.name).any isHidden := by
      rw [List.any_map]
      rfl
    rw [same]
    simpa using visible
  · obtain ⟨entry, included, leads⟩ := List.any_eq_true.mp within
    obtain ⟨above, each, rfl⟩ := regular.plain entry included
    rw [components_ofComponents (isStep_names each)] at leads
    have shorter : above.map Component.name <+: names.map Component.name :=
      List.isPrefixOf_iff_prefix.mp leads
    obtain ⟨rest, equal⟩ := (List.prefix_map_iff_of_injective (fun _ _ => Component.name.inj)).mp
      shorter
    exact ⟨above, rest, equal.symm, included⟩

private theorem text_above {above rest : List String}
    (each : ∀ name ∈ above ++ rest, IsStep (.name name)) :
    ∃ tail, (ofComponents ((above ++ rest).map Component.name)).text =
      (ofComponents (above.map Component.name)).text ++ tail := by
  have aboveEach := fun name member => each name (List.mem_append_left rest member)
  rw [text_ofComponents (isStep_names each), text_ofComponents (isStep_names aboveEach),
    List.map_append, List.map_append]
  cases above with
  | nil => exact ⟨_, (String.empty_append).symm⟩
  | cons first others =>
      cases rest with
      | nil => exact ⟨"", by simp⟩
      | cons next more =>
          refine ⟨"/" ++ String.intercalate "/" (((next :: more).map Component.name).map
            Component.text), ?_⟩
          rw [String.intercalate_append_of_ne_nil (by simp) (by simp), String.append_assoc]

theorem directoryAt?_above {tree : FileTree} {root : SourcePath} (absolute : root.isAbsolute = true)
    {above rest : List String} (each : ∀ name ∈ above ++ rest, IsStep (.name name))
    (deeper : rest ≠ []) {place : Place}
    (resolved : tree.resolve (root.join (ofComponents ((above ++ rest).map Component.name))) =
      .ok place) :
    ∃ middle, tree.directoryAt? (root.join (ofComponents (above.map Component.name))) =
      some middle ∧ place = middle ++ rest ∧ tree.isOpenAt middle = true ∧
        (tree.find? place).isSome := by
  have aboveEach := fun name member => each name (List.mem_append_left rest member)
  have restEach := fun name member => each name (List.mem_append_right above member)
  have relative := ofComponents_relative (isStep_names each)
  have aboveRelative := ofComponents_relative (isStep_names aboveEach)
  obtain ⟨lead, _same, pieces⟩ := pieces_join root
  have names_pieces {names : List String} (nonempty : names ≠ [])
      (steps : ∀ name ∈ names, IsStep (.name name)) :
      (ofComponents (names.map Component.name)).text.toList.splitOn '/' =
        names.map String.toList := by
    rw [pieces_ofComponents (isStep_names steps) (by simpa using nonempty), List.map_map]
    rfl
  have followed := FileTree.follow_of_resolve resolved
  rw [pieces _ relative, names_pieces (by simp [deeper]) each, List.map_append,
    List.foldlM_append] at followed
  cases atTop : lead.foldlM tree.enter [] with
  | error fault => rw [atTop] at followed; cases followed
  | ok top =>
      rw [atTop] at followed
      change ((above.map String.toList ++ rest.map String.toList).foldlM tree.enter top) =
        .ok place at followed
      rw [List.foldlM_append] at followed
      cases atMiddle : (above.map String.toList).foldlM tree.enter top with
      | error fault => rw [atMiddle] at followed; cases followed
      | ok middle =>
          rw [atMiddle] at followed
          obtain ⟨middleEq, _inside⟩ := FileTree.walk_names aboveEach atMiddle
          obtain ⟨placeEq, entered⟩ := FileTree.walk_names restEach followed
          have inside := FileTree.isDirectoryAt_of_isOpenAt (entered deeper).1
          refine ⟨middle, ?_, placeEq, entered deeper⟩
          have arrives : tree.resolve (root.join (ofComponents (above.map Component.name))) =
              .ok middle := by
            obtain ⟨tail, extended⟩ := text_above each
            rw [FileTree.resolve_front resolved, pieces _ aboveRelative,
              List.foldlM_append, atTop]
            · change List.foldlM tree.enter top
                ((ofComponents (above.map Component.name)).text.toList.splitOn '/') =
                  Except.ok middle
              by_cases shallow : above = []
              · subst shallow
                rw [middleEq, List.append_nil] at inside ⊢
                exact FileTree.walk_nothing inside
              · rw [names_pieces shallow aboveEach, atMiddle]
            · rw [text_join root relative, text_join root aboveRelative, extended,
                String.append_assoc]
            · obtain ⟨more, written⟩ := (isAbsolute_iff _).mp (join_isAbsolute absolute)
              rw [written]
              exact List.cons_ne_nil _ _
          unfold FileTree.directoryAt?
          rw [arrives]
          exact if_pos inside

/-! ### What a search comes upon -/

theorem components_join_names {root : SourcePath} (absolute : root.isAbsolute = true)
    {names : List String} (each : ∀ name ∈ names, IsStep (.name name)) :
    (root.join (ofComponents (names.map Component.name))).components =
      root.components ++ names.map Component.name := by
  have allSteps := isStep_names each
  rw [components_join absolute (ofComponents_relative allSteps), steps_ofComponents allSteps]

/-- A search comes upon whatever does not show as a directory, below the directories on the way
to it. -/
theorem mem_search_of_listed (absolute : selection.root.isAbsolute = true)
    {above rest : List String} {name : String} {depth : Nat} {place middle : Place}
    (each : ∀ other ∈ above ++ rest ++ [name], IsStep (.name other))
    (visible : rest.any isHiddenName = false) (shown : isHiddenName name = false)
    (deep : rest.length < depth)
    (start : tree.directoryAt? (selection.root.join (ofComponents (above.map .name))) = some place)
    (last : tree.directoryAt? (selection.root.join (ofComponents ((above ++ rest).map .name))) =
      some middle)
    (opened : tree.isOpenAt middle = true) (listed : name ∈ tree.entries middle)
    (nowhere : tree.directoryAt?
      (selection.root.join (ofComponents ((above ++ rest ++ [name]).map .name))) = none)
    (selected : selection.selects (ofComponents ((above ++ rest ++ [name]).map .name)) = true) :
    .ok (ofComponents ((above ++ rest ++ [name]).map .name)) ∈
      selection.search tree depth (selection.root.join (ofComponents (above.map .name))) place := by
  induction rest generalizing above place depth with
  | nil =>
      obtain ⟨depth, rfl⟩ := Nat.exists_eq_succ_of_ne_zero (Nat.ne_zero_of_lt deep)
      rw [List.append_nil] at *
      cases start.symm.trans last
      refine mem_search_succ.mpr (Or.inr ⟨opened, name, listed, shown, Or.inr ?_⟩)
      rw [join_join_name absolute each]
      exact ⟨nowhere, (selects_join absolute (isStep_names each)).trans selected, _,
        components_join_names absolute each, rfl⟩
  | cons next more ih =>
      obtain ⟨depth, rfl⟩ := Nat.exists_eq_succ_of_ne_zero (Nat.ne_zero_of_lt deep)
      have onward : above ++ next :: more = above ++ [next] ++ more := by simp
      have eachFront : ∀ other ∈ above ++ [next] ++ more, IsStep (.name other) := by
        rw [← onward]
        exact fun other member => each other (List.mem_append_left [name] member)
      have eachNext := fun other member => eachFront other (List.mem_append_left more member)
      rw [List.any_cons, Bool.or_eq_false_iff] at visible
      obtain ⟨below, directory⟩ : ∃ below, tree.directoryAt?
          (selection.root.join (ofComponents ((above ++ [next]).map .name))) = some below := by
        by_cases ends : more = []
        · exact ⟨middle, by rw [← last, onward, ends, List.append_nil]⟩
        · rw [onward] at last
          obtain ⟨below, directory, _⟩ := directoryAt?_above absolute eachFront ends
            (FileTree.isDirectoryAt_of_directoryAt? last).2
          exact ⟨below, directory⟩
      obtain ⟨here, atHere, rfl, openHere, stands⟩ := directoryAt?_above absolute eachNext
        (List.cons_ne_nil next []) (FileTree.isDirectoryAt_of_directoryAt? directory).2
      cases start.symm.trans atHere
      rw [onward] at each last nowhere selected ⊢
      refine mem_search_succ.mpr (Or.inr ⟨openHere, next, FileTree.mem_entries stands, visible.1,
        Or.inl ⟨place ++ [next], ?_⟩⟩)
      rw [join_join_name absolute eachNext]
      exact ⟨directory, ih each visible.2 (Nat.lt_of_succ_lt_succ deep) directory last nowhere
        selected⟩

end Selection

namespace FileTree

variable {tree : FileTree} {root : SourcePath} {names : List String} {place : Place}

/-- Whether names lead from a root to something that does not show as a directory, in a directory
that can be listed. -/
def Meets (tree : FileTree) (root : SourcePath) (names : List String) : Prop :=
  ∃ above name place, names = above ++ [name] ∧
    tree.directoryAt? (root.join (ofComponents (above.map .name))) = some place ∧
    tree.isOpenAt place = true ∧ name ∈ tree.entries place ∧
    tree.directoryAt? (root.join (ofComponents (names.map .name))) = none

theorem directoryAt?_of_isFile {path : SourcePath} (isFile : tree.isFile path = true) :
    tree.directoryAt? path = none ∧ ∃ place, tree.resolve path = .ok place := by
  unfold FileTree.isFile nodeAt? at isFile
  unfold directoryAt? isDirectoryAt
  cases resolved : tree.resolve path with
  | error fault => rw [resolved] at isFile; cases isFile
  | ok place =>
      rw [resolved] at isFile
      refine ⟨?_, place, rfl⟩
      dsimp only at isFile ⊢
      cases node : tree.find? place with
      | none => rfl
      | some kind =>
          rw [node] at isFile
          cases kind with
          | file content => rfl
          | lockedFile => rfl
          | directory | lockedDirectory | special => cases isFile

theorem isFile_of_read {path : SourcePath} {bytes : List UInt8} (read : tree.read path = .ok bytes) :
    tree.isFile path = true := by
  obtain ⟨place, resolved, node⟩ := read_eq_ok read
  unfold isFile nodeAt?
  rw [resolved]
  dsimp only
  rw [node]
  rfl

theorem meets_of_isFile (absolute : root.isAbsolute = true)
    (each : ∀ name ∈ names, IsStep (.name name)) (nonempty : names ≠ [])
    (isFile : tree.isFile (root.join (ofComponents (names.map .name))) = true) :
    tree.Meets root names := by
  obtain ⟨nowhere, place, resolved⟩ := directoryAt?_of_isFile isFile
  obtain ⟨above, name, rfl⟩ := (List.eq_nil_or_concat names).resolve_left nonempty
  rw [List.concat_eq_append] at *
  obtain ⟨middle, directory, rfl, opened, stands⟩ :=
    Selection.directoryAt?_above absolute each (List.cons_ne_nil name []) resolved
  exact ⟨above, name, middle, rfl, directory, opened, mem_entries stands, nowhere⟩

/-- Whether all names of a tree can be written in a path. -/
def Named (tree : FileTree) : Prop := ∀ entry ∈ tree.nodes, ∀ name ∈ entry.1, IsStep (.name name)

theorem Named.of_mem_entries (named : tree.Named) {name : String} (listed : name ∈ tree.entries place) :
    IsStep (.name name) := by
  obtain ⟨⟨found, node⟩, member, last⟩ := List.mem_filterMap.mp listed
  dsimp only at last
  split at last
  · exact named _ member name (List.mem_of_getLast? last)
  · cases last

end FileTree

namespace Selection

variable {selection : Selection} {tree : FileTree} {file : SourcePath}

/-- Whether names lead from a root to something below an included entry. -/
def Below (selection : Selection) (names : List String) : Prop :=
  ∃ above rest, names = above ++ rest ∧ rest ≠ [] ∧
    ofComponents (above.map .name) ∈ selection.included

theorem meets_of_mem_search (absolute : selection.root.isAbsolute = true) (named : tree.Named)
    {above : List String} (each : ∀ name ∈ above, IsStep (.name name)) {depth : Nat} {place : Place}
    (start : tree.directoryAt? (selection.root.join (ofComponents (above.map .name))) = some place)
    (member : .ok file ∈ selection.search tree depth
      (selection.root.join (ofComponents (above.map .name))) place) :
    ∃ rest, rest ≠ [] ∧ (∀ name ∈ above ++ rest, IsStep (.name name)) ∧
      tree.Meets selection.root (above ++ rest) ∧
        file = ofComponents ((above ++ rest).map .name) := by
  induction depth generalizing above place with
  | zero => cases member
  | succ depth ih =>
      rcases mem_search_succ.mp member with ⟨_locked, same⟩ | ⟨opened, name, listed, _shown, kind⟩
      · cases same
      · have eachNext : ∀ other ∈ above ++ [name], IsStep (.name other) := by
          intro other inNext
          rcases List.mem_append.mp inNext with inAbove | isName
          · exact each other inAbove
          · rw [List.mem_singleton.mp isName]
            exact named.of_mem_entries listed
        rw [join_join_name absolute eachNext] at kind
        rcases kind with ⟨below, directory, later⟩ | ⟨nowhere, _selected, parts, extended, same⟩
        · obtain ⟨rest, _deeper, all, meets, written⟩ := ih eachNext directory later
          rw [List.append_assoc] at all meets written
          exact ⟨[name] ++ rest, by simp, all, meets, written⟩
        · cases same
          rw [components_join_names absolute eachNext] at extended
          exact ⟨[name], List.cons_ne_nil _ _, eachNext,
            ⟨above, name, place, rfl, start, opened, listed, nowhere⟩,
            by rw [List.append_cancel_left extended]⟩

/-- What is found is a file at the end of its path, or something else below an included entry that
does not show as a directory. -/
theorem names_of_mem_found (regular : selection.Regular) (named : tree.Named) {entry : SourcePath}
    (included : entry ∈ selection.included) (member : .ok file ∈ selection.found tree entry) :
    ∃ names, (∀ name ∈ names, IsStep (.name name)) ∧ file = ofComponents (names.map .name) ∧
      (tree.isFile (selection.root.join file) = true ∨
        tree.Meets selection.root names ∧ selection.Below names) := by
  obtain ⟨front, each, rfl⟩ := regular.plain entry included
  rcases mem_found.mp member with ⟨_none, isFile, _joined, same⟩ | ⟨place, directory, later⟩
  · cases same
    exact ⟨front, each, rfl, Or.inl isFile⟩
  · obtain ⟨rest, deeper, all, meets, written⟩ :=
      meets_of_mem_search regular.absolute named each directory later
    exact ⟨front ++ rest, all, written, Or.inr ⟨meets, front, rest, rfl, deeper, included⟩⟩

theorem mem_found_of_meets (absolute : selection.root.isAbsolute = true) {above rest : List String}
    (each : ∀ name ∈ above ++ rest, IsStep (.name name)) (visible : rest.any isHiddenName = false)
    (deeper : rest ≠ []) (meets : tree.Meets selection.root (above ++ rest))
    (selected : selection.selects (ofComponents ((above ++ rest).map .name)) = true) :
    .ok (ofComponents ((above ++ rest).map .name)) ∈
      selection.found tree (ofComponents (above.map .name)) := by
  obtain ⟨front, name, middle, cut, last, opened, listed, nowhere⟩ := meets
  obtain ⟨init, other, rfl⟩ := (List.eq_nil_or_concat rest).resolve_left deeper
  rw [List.concat_eq_append, ← List.append_assoc] at *
  obtain ⟨rfl, same⟩ := List.append_inj' cut rfl
  cases same
  have eachFront := fun part member => each part (List.mem_append_left [name] member)
  have resolved := (FileTree.isDirectoryAt_of_directoryAt? last).2
  have deep : init.length < FileTree.pathLimit := by
    have short := FileTree.size_of_resolve resolved
    rw [text_join _ (ofComponents_relative (isStep_names eachFront)),
      String.utf8ByteSize_append] at short
    have few := length_le_utf8ByteSize eachFront
    rw [List.length_append] at few
    omega
  obtain ⟨place, start⟩ : ∃ place, tree.directoryAt?
      (selection.root.join (ofComponents (above.map .name))) = some place := by
    by_cases shallow : init = []
    · rw [shallow, List.append_nil] at last
      exact ⟨middle, last⟩
    · obtain ⟨place, start, _⟩ := directoryAt?_above absolute eachFront shallow resolved
      exact ⟨place, start⟩
  rw [List.any_append, Bool.or_eq_false_iff] at visible
  refine mem_found.mpr (Or.inr ⟨place, start, ?_⟩)
  exact mem_search_of_listed absolute each visible.1 (by simpa using visible.2) deep start last opened
    listed nowhere selected

theorem mem_found_of_isFile (absolute : selection.root.isAbsolute = true) {names : List String}
    (each : ∀ name ∈ names, IsStep (.name name))
    (selected : selection.selects (ofComponents (names.map .name)) = true)
    (isFile : tree.isFile (selection.root.join (ofComponents (names.map .name))) = true) :
    .ok (ofComponents (names.map .name)) ∈
      selection.found tree (ofComponents (names.map .name)) :=
  mem_found.mpr (Or.inl ⟨(FileTree.directoryAt?_of_isFile isFile).1, isFile,
    (selects_join absolute (isStep_names each)).trans selected, rfl⟩)

theorem mem_inventory_of_isFile (regular : selection.Regular) (plain : file.Plain)
    (selected : selection.selects file = true)
    (isFile : tree.isFile (selection.root.join file) = true) : file ∈ selection.inventory tree := by
  obtain ⟨names, each, rfl⟩ := plain
  obtain ⟨visible, above, rest, rfl, included⟩ :=
    included_of_selects regular (isStep_names each) selected
  apply mem_inventory_of_found regular included
  by_cases atEntry : rest = []
  · subst atEntry
    rw [List.append_nil] at *
    exact mem_found_of_isFile regular.absolute each selected isFile
  · rw [List.any_append, Bool.or_eq_false_iff] at visible
    exact mem_found_of_meets regular.absolute each visible.2 atEntry
      (FileTree.meets_of_isFile regular.absolute each (by simp [atEntry]) isFile) selected

theorem mem_inventory_of_read (regular : selection.Regular) {bytes : List UInt8}
    (plain : file.Plain) (selected : selection.selects file = true)
    (read : tree.read (selection.root.join file) = .ok bytes) : file ∈ selection.inventory tree :=
  mem_inventory_of_isFile regular plain selected (FileTree.isFile_of_read read)

theorem plain_of_mem_inventory (regular : selection.Regular) (named : tree.Named)
    (member : file ∈ selection.inventory tree) : file.Plain := by
  obtain ⟨entry, included, inFound⟩ := found_of_mem_inventory member
  obtain ⟨names, each, written, _kind⟩ := names_of_mem_found regular named included inFound
  exact ⟨names, each, written⟩

/-- Whether discovery comes to its end and all that it finds can be read. -/
structure Readable (selection : Selection) (tree : FileTree) : Prop where
  explorable : selection.Explorable tree
  read : ∀ file ∈ selection.inventory tree,
    ∃ bytes, tree.read (selection.root.join file) = .ok bytes

/-- What discovery comes upon are the selected files, and whatever else has a selected path below
an included entry and does not show as a directory. -/
theorem mem_inventory_iff (regular : selection.Regular) (named : tree.Named) :
    file ∈ selection.inventory tree ↔ selection.selects file = true ∧
      ∃ names, (∀ name ∈ names, IsStep (.name name)) ∧ file = ofComponents (names.map .name) ∧
        (tree.isFile (selection.root.join file) = true ∨
          tree.Meets selection.root names ∧ selection.Below names) := by
  constructor
  · intro member
    obtain ⟨entry, included, inFound⟩ := found_of_mem_inventory member
    exact ⟨(of_mem_inventory regular member).1, names_of_mem_found regular named included inFound⟩
  · rintro ⟨selected, names, each, rfl, isFile | ⟨meets, above, rest, rfl, deeper, included⟩⟩
    · exact mem_inventory_of_isFile regular ⟨names, each, rfl⟩ selected isFile
    · have visible := (included_of_selects regular (isStep_names each) selected).1
      rw [List.any_append, Bool.or_eq_false_iff] at visible
      exact mem_inventory_of_found regular included
        (mem_found_of_meets regular.absolute each visible.2 deeper meets selected)

end Selection

end Reanalysis
