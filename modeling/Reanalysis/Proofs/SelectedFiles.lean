/-
What a selection finds and what it selects. In a tree as file systems have them the walk over
the included entries and the judgement of single paths agree: the files found are those that
stand in the tree and are selected, whatever the included entries overlap with or repeat, and
a path is judged alike in each of its spellings.
-/

import Mathlib.Data.List.Induction
import Mathlib.Data.List.Nodup
import Reanalysis.Proofs.Discovery

namespace Reanalysis

open SourcePath

namespace FileTree

variable {tree : FileTree} {place below top : Place} {names : List String} {name : String}

/-- A tree as file systems have them: its names can be written in paths and are not too long,
no two nodes stand in one place, and each stands in a directory that is not locked. -/
structure Sound (tree : FileTree) : Prop where
  named : tree.Named
  usable : ∀ entry ∈ tree.nodes, ∀ name ∈ entry.1,
    Char.ofNat 0 ∉ name.toList ∧ name.utf8ByteSize ≤ nameLimit
  apart : (tree.nodes.map Prod.fst).Nodup
  rooted : ∀ entry ∈ tree.nodes, tree.isOpenAt entry.1.dropLast = true

/-- Whether names lead from a root to a file of the tree. -/
def Holds (tree : FileTree) (root : SourcePath) (names : List String) : Prop :=
  ∃ top node, tree.directoryAt? root = some top ∧
    tree.find? (top ++ names) = some node ∧ node.isFile = true

/-- Whether the paths of all that stands below a root are short enough to be followed. -/
def WithinReach (tree : FileTree) (root : SourcePath) : Prop :=
  ∀ top names, tree.directoryAt? root = some top → (tree.find? (top ++ names)).isSome →
    (root.join (ofComponents (names.map .name))).text.utf8ByteSize < pathLimit

theorem Sound.find?_of_mem (sound : tree.Sound) {node : Node} (deeper : place ≠ [])
    (member : (place, node) ∈ tree.nodes) : tree.find? place = some node := by
  have stands : (tree.nodes.find? (fun entry => entry.1 = place)).isSome :=
    List.find?_isSome.mpr ⟨_, member, decide_eq_true rfl⟩
  obtain ⟨found, first⟩ := Option.isSome_iff_exists.mp stands
  have here : found.1 = place := by simpa using List.find?_some first
  have same : found = (place, node) :=
    List.inj_on_of_nodup_map sound.apart (List.mem_of_find?_eq_some first) member here
  unfold find?
  rw [if_neg deeper, first, same]
  rfl

theorem Sound.find?_of_mem_entries (sound : tree.Sound) (listed : name ∈ tree.entries place) :
    (tree.find? (place ++ [name])).isSome := by
  obtain ⟨⟨found, node⟩, member, last⟩ := List.mem_filterMap.mp listed
  dsimp only at last
  split at last
  · rename_i here
    obtain ⟨above, rfl⟩ := List.getLast?_eq_some_iff.mp last
    rw [List.dropLast_concat] at here
    rw [← here, sound.find?_of_mem (by simp) member]
    rfl
  · cases last

theorem Sound.isOpenAt_above (sound : tree.Sound) (deeper : below ≠ [])
    (stands : (tree.find? (place ++ below)).isSome) : tree.isOpenAt place = true := by
  induction below using List.reverseRecOn with
  | nil => exact absurd rfl deeper
  | append_singleton front name ih =>
      obtain ⟨node, found⟩ := Option.isSome_iff_exists.mp stands
      have inside := sound.rooted _ (mem_nodes_of_find? (by simp) found)
      rw [← List.append_assoc, List.dropLast_concat] at inside
      by_cases shallow : front = []
      · rwa [shallow, List.append_nil] at inside
      · exact ih shallow (Option.isSome_iff_exists.mpr ⟨_, of_decide_eq_true inside⟩)

theorem Sound.name_of_stands (sound : tree.Sound) (stands : (tree.find? (top ++ names)).isSome)
    (member : name ∈ names) : IsStep (.name name) ∧ Char.ofNat 0 ∉ name.toList ∧
      name.utf8ByteSize ≤ nameLimit := by
  obtain ⟨node, found⟩ := Option.isSome_iff_exists.mp stands
  have deeper : top ++ names ≠ [] :=
    List.append_ne_nil_of_right_ne_nil _ (List.ne_nil_of_mem member)
  have listed := mem_nodes_of_find? deeper found
  have within : name ∈ top ++ names := List.mem_append_right top member
  exact ⟨sound.named _ listed name within, sound.usable _ listed name within⟩

theorem enter_of_name (step : IsStep (.name name)) (short : name.utf8ByteSize ≤ nameLimit)
    (opened : tree.isOpenAt place = true) (stands : (tree.find? (place ++ [name])).isSome) :
    tree.enter place name.toList = .ok (place ++ [name]) := by
  have read : component name.toList = some (.name name) := step.1
  have ordinary : ¬(name.toList = [] ∨ name.toList = ['.']) := by
    intro idle
    unfold component at read
    rw [if_pos idle] at read
    cases read
  rw [not_or] at ordinary
  have forward : name.toList ≠ ['.', '.'] := by
    intro upwards
    rw [upwards] at read
    cases read
  unfold enter
  rw [isDirectoryAt_of_isOpenAt opened, opened, if_neg (by decide), if_neg ordinary.1,
    if_neg (by decide), if_neg ordinary.2, if_neg forward, String.ofList_toList]
  dsimp only
  rw [if_neg (Nat.not_lt.mpr short), if_neg]
  rw [Option.isNone_iff_eq_none]
  intro absent
  rw [absent] at stands
  cases stands

theorem Sound.walk_down (sound : tree.Sound) (stands : (tree.find? (top ++ names)).isSome) :
    (names.map String.toList).foldlM tree.enter top = .ok (top ++ names) := by
  induction names generalizing top with
  | nil => exact congrArg Except.ok (List.append_nil top).symm
  | cons name rest ih =>
      obtain ⟨step, _clear, short⟩ := sound.name_of_stands stands List.mem_cons_self
      have opened := sound.isOpenAt_above (List.cons_ne_nil name rest) stands
      rw [← List.singleton_append, ← List.append_assoc] at stands
      have next : (tree.find? (top ++ [name])).isSome := by
        by_cases last : rest = []
        · rw [last, List.append_nil] at stands
          exact stands
        · have directory := sound.isOpenAt_above last stands
          exact Option.isSome_iff_exists.mpr ⟨_, of_decide_eq_true directory⟩
      rw [List.map_cons, List.foldlM_cons, enter_of_name step short opened next]
      change (rest.map String.toList).foldlM tree.enter (top ++ [name]) = _
      rw [ih stands, List.append_assoc]
      rfl

theorem walk_written (each : ∀ name ∈ names, IsStep (.name name))
    (followed : ((ofComponents (names.map .name)).text.toList.splitOn '/').foldlM tree.enter top =
      .ok place) : tree.isDirectoryAt top = true ∧ place = top ++ names := by
  by_cases nothing : names = []
  · subst nothing
    rw [show (ofComponents (([] : List String).map .name)).text.toList.splitOn '/' = [[]] by decide,
      List.foldlM_cons, enter_nothing] at followed
    split at followed
    · cases followed
      exact ⟨‹_›, (List.append_nil _).symm⟩
    · cases followed
  · rw [pieces_ofComponents (isStep_names each) (by simpa using nothing), List.map_map] at followed
    obtain ⟨arrived, entered⟩ := walk_names each followed
    exact ⟨isDirectoryAt_of_isOpenAt (entered nothing).1, arrived⟩

theorem pieces_base {base : SourcePath} (absolute : base.isAbsolute = true) :
    ∃ lead : List (List Char),
      (base.text.toList.splitOn '/' = lead ∨ base.text.toList.splitOn '/' = lead ++ [[]]) ∧
      ∀ path : SourcePath, path.isAbsolute = false →
        (base.join path).text.toList.splitOn '/' = lead ++ path.text.toList.splitOn '/' := by
  obtain ⟨tail, written⟩ := (isAbsolute_iff base).mp absolute
  rcases front_cases base with ⟨empty, _nothing⟩ | ⟨lead, fronted, ends⟩
  · rw [empty] at written
    cases written
  · refine ⟨lead.splitOn '/', ?_, fun path relative => ?_⟩
    · rcases ends with bare | ended
      · exact .inl (congrArg _ bare)
      · rw [ended, List.splitOn_append_cons_self]
        exact .inr rfl
    · rw [text_join base relative, String.toList_append, fronted, List.append_assoc]
      exact List.splitOn_append_cons_self lead path.text.toList

theorem walk_base {base lead : List (List Char)} (cut : base = lead ∨ base = lead ++ [[]])
    (inside : tree.isDirectoryAt top = true) :
    base.foldlM tree.enter [] = .ok top ↔ lead.foldlM tree.enter [] = .ok top := by
  rcases cut with rfl | rfl
  · exact Iff.rfl
  · rw [List.foldlM_append]
    cases lead.foldlM tree.enter [] with
    | error fault => exact ⟨nofun, nofun⟩
    | ok middle =>
        change List.foldlM tree.enter middle [[]] = Except.ok top ↔ _
        rw [List.foldlM_cons, enter_nothing]
        constructor
        · intro went
          cases within : tree.isDirectoryAt middle with
          | true => rwa [within, if_pos rfl] at went
          | false => rw [within] at went; cases went
        · rintro ⟨⟩
          rw [if_pos inside]
          rfl

theorem resolve_from_root {root path : SourcePath} (absolute : root.isAbsolute = true)
    (relative : path.isAbsolute = false) (resolved : tree.resolve (root.join path) = .ok place) :
    ∃ top, tree.directoryAt? root = some top ∧
      (path.text.toList.splitOn '/').foldlM tree.enter top = .ok place := by
  obtain ⟨lead, cut, pieces⟩ := pieces_base absolute
  have followed := follow_of_resolve resolved
  rw [pieces path relative, List.foldlM_append] at followed
  cases atTop : lead.foldlM tree.enter [] with
  | error fault => rw [atTop] at followed; cases followed
  | ok top =>
      rw [atTop] at followed
      change (path.text.toList.splitOn '/').foldlM tree.enter top = .ok place at followed
      have inside : tree.isDirectoryAt top = true := by
        obtain ⟨first, others, written⟩ :=
          List.exists_cons_of_ne_nil (List.splitOn_ne_nil '/' path.text.toList)
        rw [written, List.foldlM_cons] at followed
        unfold enter at followed
        cases outside : tree.isDirectoryAt top with
        | true => rfl
        | false => rw [outside] at followed; cases followed
      refine ⟨top, ?_, followed⟩
      have extended : ∃ tail, (root.join path).text = root.text ++ tail := by
        rw [text_join root relative]
        unfold front
        split
        · rename_i empty
          exact ⟨path.text, by rw [empty]⟩
        · split
          · exact ⟨path.text, rfl⟩
          · exact ⟨"/" ++ path.text, String.append_assoc⟩
      obtain ⟨tail, text⟩ := extended
      obtain ⟨others, nonempty⟩ := (isAbsolute_iff root).mp absolute
      unfold directoryAt?
      rw [resolve_front resolved text (by rw [nonempty]; exact List.cons_ne_nil _ _),
        (walk_base cut inside).mpr atTop]
      exact if_pos inside

theorem not_mem_of_resolve {path : SourcePath} (resolved : tree.resolve path = .ok place) :
    Char.ofNat 0 ∉ path.text.toList := by
  rw [resolve_eq] at resolved
  split at resolved
  · cases resolved
  · rename_i clear
    exact fun held => clear (List.contains_iff_mem.mpr held)

theorem clear_ofComponents {names : List String} (each : ∀ name ∈ names, IsStep (.name name))
    (clear : ∀ name ∈ names, Char.ofNat 0 ∉ name.toList) :
    Char.ofNat 0 ∉ (ofComponents (names.map .name)).text.toList := by
  rw [text_ofComponents (isStep_names each), List.map_map]
  induction names with
  | nil => decide
  | cons name rest ih =>
      have later := ih (fun other member => each other (List.mem_cons_of_mem _ member))
        (fun other member => clear other (List.mem_cons_of_mem _ member))
      cases rest with
      | nil => simpa [Component.text] using clear name List.mem_cons_self
      | cons next more =>
          rw [List.map_cons, List.map_cons, String.intercalate_cons_cons]
          simp only [String.toList_append, List.mem_append, not_or]
          exact ⟨⟨clear name List.mem_cons_self, by decide⟩, later⟩

/-- Names lead from a root to what stands there, if the path is not too long. -/
theorem Sound.resolve_of_stands (sound : tree.Sound) {root : SourcePath}
    (absolute : root.isAbsolute = true) (reach : tree.WithinReach root)
    (directory : tree.directoryAt? root = some top) (deeper : names ≠ [])
    (stands : (tree.find? (top ++ names)).isSome) :
    (∀ name ∈ names, IsStep (.name name)) ∧
      tree.resolve (root.join (ofComponents (names.map .name))) = .ok (top ++ names) := by
  have each : ∀ name ∈ names, IsStep (.name name) :=
    fun name member => (sound.name_of_stands stands member).1
  refine ⟨each, ?_⟩
  obtain ⟨inside, resolved⟩ := isDirectoryAt_of_directoryAt? directory
  have relative := ofComponents_relative (isStep_names each)
  have clear : Char.ofNat 0 ∉ (root.join (ofComponents (names.map .name))).text.toList := by
    have clearRoot := not_mem_of_resolve resolved
    rw [text_join root relative, String.toList_append, List.mem_append, not_or]
    refine ⟨?_, clear_ofComponents each
      (fun name member => (sound.name_of_stands stands member).2.1)⟩
    unfold front
    split
    · decide
    · split
      · exact clearRoot
      · rw [String.toList_append, List.mem_append, not_or]
        exact ⟨clearRoot, by decide⟩
  have joined : (root.join (ofComponents (names.map .name))).isAbsolute = true :=
    join_isAbsolute absolute
  obtain ⟨tail, written⟩ := (isAbsolute_iff _).mp joined
  have short := reach top names directory stands
  obtain ⟨lead, cut, pieces⟩ := pieces_base absolute
  rw [resolve_eq, if_neg (fun held => clear (List.contains_iff_mem.mp held)),
    if_neg (by rw [written]; exact List.cons_ne_nil _ _), if_neg (Nat.not_le.mpr short),
    pieces _ relative, List.foldlM_append,
    (walk_base cut inside).mp (follow_of_resolve resolved)]
  change ((ofComponents (names.map .name)).text.toList.splitOn '/').foldlM tree.enter top = _
  rw [pieces_ofComponents (isStep_names each) (by simpa using deeper), List.map_map]
  exact sound.walk_down stands

theorem Sound.isFile_of_holds (sound : tree.Sound) {root : SourcePath}
    (absolute : root.isAbsolute = true) (reach : tree.WithinReach root)
    (holds : tree.Holds root names) :
    (∀ name ∈ names, IsStep (.name name)) ∧
      tree.isFile (root.join (ofComponents (names.map .name))) = true := by
  obtain ⟨top, node, directory, found, file⟩ := holds
  have deeper : names ≠ [] := by
    rintro rfl
    have inside := (isDirectoryAt_of_directoryAt? directory).1
    rw [List.append_nil] at found
    unfold isDirectoryAt at inside
    rw [found] at inside
    cases node with
    | file content => cases inside
    | lockedFile => cases inside
    | directory | lockedDirectory | special => cases file
  obtain ⟨each, resolved⟩ := sound.resolve_of_stands absolute reach directory deeper
    (Option.isSome_iff_exists.mpr ⟨_, found⟩)
  refine ⟨each, ?_⟩
  unfold isFile nodeAt?
  rw [resolved]
  dsimp only
  rw [found]
  exact file

theorem holds_of_isFile {root : SourcePath} (absolute : root.isAbsolute = true)
    (each : ∀ name ∈ names, IsStep (.name name))
    (isFile : tree.isFile (root.join (ofComponents (names.map .name))) = true) :
    tree.Holds root names := by
  unfold FileTree.isFile nodeAt? at isFile
  cases resolved : tree.resolve (root.join (ofComponents (names.map .name))) with
  | error fault => rw [resolved] at isFile; cases isFile
  | ok place =>
      rw [resolved] at isFile
      obtain ⟨node, found, file⟩ := (Option.any_eq_true _ _).mp isFile
      obtain ⟨top, directory, followed⟩ :=
        resolve_from_root absolute (ofComponents_relative (isStep_names each)) resolved
      obtain ⟨_inside, rfl⟩ := walk_written each followed
      exact ⟨top, node, directory, found, file⟩

theorem Sound.holds_of_meets (sound : tree.Sound) {root : SourcePath}
    (absolute : root.isAbsolute = true) (reach : tree.WithinReach root)
    (ordinary : ∀ entry ∈ tree.nodes, entry.2 ≠ .special)
    (each : ∀ name ∈ names, IsStep (.name name)) (meets : tree.Meets root names) :
    tree.Holds root names := by
  obtain ⟨above, name, place, rfl, directory, _opened, listed, nowhere⟩ := meets
  have eachAbove := fun part member => each part (List.mem_append_left [name] member)
  obtain ⟨top, atRoot, followed⟩ := resolve_from_root absolute
    (ofComponents_relative (isStep_names eachAbove)) (isDirectoryAt_of_directoryAt? directory).2
  obtain ⟨_inside, rfl⟩ := walk_written eachAbove followed
  have stands := sound.find?_of_mem_entries listed
  rw [List.append_assoc] at stands
  obtain ⟨node, found⟩ := Option.isSome_iff_exists.mp stands
  have resolved := (sound.resolve_of_stands absolute reach atRoot (by simp) stands).2
  refine ⟨top, node, atRoot, found, ?_⟩
  unfold directoryAt? isDirectoryAt at nowhere
  rw [resolved] at nowhere
  dsimp only at nowhere
  rw [found] at nowhere
  cases node with
  | file content => rfl
  | lockedFile => rfl
  | directory | lockedDirectory => cases nowhere
  | special => exact absurd rfl (ordinary _ (mem_nodes_of_find? (by simp) found))

end FileTree

/-! ### Finding and judging -/

namespace Selection

variable {selection : Selection} {tree : FileTree} {file : SourcePath}

/-- In a tree where all can be reached and nothing is special, discovery comes upon the files that
are selected. -/
theorem mem_inventory_iff_holds (regular : selection.Regular) (sound : tree.Sound)
    (reach : tree.WithinReach selection.root)
    (ordinary : ∀ entry ∈ tree.nodes, entry.2 ≠ .special) :
    file ∈ selection.inventory tree ↔ selection.selects file = true ∧
      ∃ names, tree.Holds selection.root names ∧ file = ofComponents (names.map .name) := by
  rw [mem_inventory_iff regular sound.named]
  refine and_congr_right fun _selected => ⟨?_, ?_⟩
  · rintro ⟨names, each, rfl, isFile | ⟨meets, _below⟩⟩
    · exact ⟨names, FileTree.holds_of_isFile regular.absolute each isFile, rfl⟩
    · exact ⟨names, sound.holds_of_meets regular.absolute reach ordinary each meets, rfl⟩
  · rintro ⟨names, holds, rfl⟩
    obtain ⟨each, isFile⟩ := sound.isFile_of_holds regular.absolute reach holds
    exact ⟨names, each, rfl, Or.inl isFile⟩

theorem relative_eq_steps (absolute : selection.root.isAbsolute = true)
    (relative : file.isAbsolute = false) : selection.relative file = steps file.text.toList := by
  have apart : file.startsWith selection.root = false := by
    rw [Bool.eq_false_iff]
    intro starts
    unfold startsWith at starts
    rw [components_of_absolute absolute] at starts
    have leads := (List.isPrefixOf_iff_prefix.mp starts).subset List.mem_cons_self
    rw [components_eq, relative, if_neg Bool.false_ne_true, List.mem_append] at leads
    rcases leads with inFront | inSteps
    · split at inFront <;> simp at inFront
    · exact (isStep_of_mem_steps inSteps).ne_root rfl
  unfold Selection.relative SourcePath.below
  rw [apart, if_neg Bool.false_ne_true, Option.getD_none, filter_components relative]

theorem selects_here (absolute : selection.root.isAbsolute = true)
    (relative : file.isAbsolute = false) :
    selection.selects ⟨"./" ++ file.text⟩ = selection.selects file := by
  apply selects_congr
  have text : ("./" ++ file.text).toList = ['.'] ++ '/' :: file.text.toList :=
    String.toList_append
  rw [relative_eq_steps absolute relative, relative_eq_steps absolute]
  · change steps ("./" ++ file.text).toList = _
    rw [text]
    unfold steps
    rw [List.splitOn_append_cons_self]
    rfl
  · unfold isAbsolute
    rw [text]
    rfl

theorem selects_below (absolute : selection.root.isAbsolute = true)
    (relative : file.isAbsolute = false) :
    selection.selects (selection.root.join file) = selection.selects file := by
  apply selects_congr
  rw [relative_eq_steps absolute relative]
  exact relative_of_components (fun part => isStep_of_mem_steps)
    (components_join absolute relative)

theorem inventory_ascending (selection : Selection) (tree : FileTree) :
    (selection.inventory tree).Pairwise SourcePath.precedes :=
  List.pairwise_map.mpr (PathSet.ofFiles _).ascending

/-- Whatever patterns are included and excluded: where no directory is locked discovery comes to
its end, with paths in file order, each once. They are the selected paths that lead to a file,
or below an included entry to something else that does not show as a directory; so they are those
of the selected files alone where nothing is special and all can be reached. A relative path is
judged like the same path with a `.` in front of it, and like the path that it leads to from the
root. -/
theorem discover_agrees_with_selects {root : SourcePath}
    (included excluded extensions : List String) (absolute : root.isAbsolute = true)
    (down : ∀ text ∈ included, (SourcePath.mk text).isAbsolute = false ∧
      .parent ∉ (SourcePath.mk text).components)
    (sound : tree.Sound) (unlocked : ∀ entry ∈ tree.nodes, entry.2 ≠ .lockedDirectory) :
    let selection := of root included excluded extensions
    ∃ files, selection.discover tree = .ok files ∧ files.Pairwise SourcePath.precedes ∧
      (∀ file, file ∈ files ↔ selection.selects file = true ∧
        ∃ names, (∀ name ∈ names, IsStep (.name name)) ∧ file = ofComponents (names.map .name) ∧
          (tree.isFile (root.join file) = true ∨
            tree.Meets root names ∧ selection.Below names)) ∧
      (tree.WithinReach root → (∀ entry ∈ tree.nodes, entry.2 ≠ .special) →
        ∀ file, file ∈ files ↔ selection.selects file = true ∧
          ∃ names, tree.Holds root names ∧ file = ofComponents (names.map .name)) ∧
      ∀ path : SourcePath, path.isAbsolute = false →
        selection.selects ⟨"./" ++ path.text⟩ = selection.selects path ∧
          selection.selects (root.join path) = selection.selects path := by
  have regular := of_regular included excluded extensions absolute down
  exact ⟨_, explorable_of_unlocked unlocked, inventory_ascending _ tree,
    fun file => mem_inventory_iff regular sound.named,
    fun reach ordinary file => mem_inventory_iff_holds regular sound reach ordinary,
    fun path relative => ⟨selects_here regular.absolute relative,
      selects_below regular.absolute relative⟩⟩

end Selection

/-! Included entries that overlap, are repeated, and name a single file. -/
namespace Overlapping

def tree : FileTree :=
  ⟨[(["work"], .directory), (["work", "index.ts"], .file []), (["work", "src"], .directory),
    (["work", "src", "a.ts"], .file []), (["work", "src", "notes.md"], .file []),
    (["work", "src", "generated"], .directory), (["work", "src", "generated", "b.ts"], .file []),
    (["work", "src", ".cache"], .directory), (["work", "src", ".cache", "c.ts"], .file [])]⟩

def selection : Selection :=
  .of ⟨"/work/"⟩ ["./src", "src/", "src/a.ts", "index.ts"] ["src/generated"] [".ts"]

theorem sound : tree.Sound where
  named := by
    unfold FileTree.Named IsStep
    decide +kernel
  usable := by decide +kernel
  apart := by decide +kernel
  rooted := by decide +kernel

theorem withinReach : tree.WithinReach ⟨"/work/"⟩ := by
  have atRoot : tree.directoryAt? ⟨"/work/"⟩ = some ["work"] := by decide +kernel
  have short : ∀ entry ∈ (["work"], Node.directory) :: tree.nodes, (SourcePath.join ⟨"/work/"⟩
      (ofComponents ((entry.1.drop 1).map .name))).text.utf8ByteSize < FileTree.pathLimit := by
    decide +kernel
  intro top names directory stands
  cases atRoot.symm.trans directory
  obtain ⟨node, found⟩ := Option.isSome_iff_exists.mp stands
  exact short (["work"] ++ names, node) (List.mem_cons_of_mem _
    (FileTree.mem_nodes_of_find? (List.cons_ne_nil _ _) found))

end Overlapping

/-- Of the files below the included entries those are found that are neither excluded nor
hidden. -/
theorem Selection.discover_agrees_of_overlapping :
    Overlapping.tree.Sound ∧ Overlapping.tree.WithinReach ⟨"/work/"⟩ ∧
      ∃ files, Overlapping.selection.discover Overlapping.tree = .ok files ∧
        ⟨"src/a.ts"⟩ ∈ files ∧ ⟨"src/generated/b.ts"⟩ ∉ files ∧ ⟨"src/.cache/c.ts"⟩ ∉ files ∧
        Overlapping.selection.selects ⟨"./src/a.ts"⟩ = Overlapping.selection.selects ⟨"src/a.ts"⟩ ∧
        Overlapping.selection.selects ⟨"/work/src/a.ts"⟩ =
          Overlapping.selection.selects ⟨"src/a.ts"⟩ := by
  obtain ⟨files, found, _ascending, _exactly, selected, spellings⟩ := @discover_agrees_with_selects
    Overlapping.tree ⟨"/work/"⟩ ["./src", "src/", "src/a.ts", "index.ts"] ["src/generated"] [".ts"] (by decide)
    (by decide +kernel) Overlapping.sound (by decide +kernel)
  have holds := selected Overlapping.withinReach (by decide +kernel)
  refine ⟨Overlapping.sound, Overlapping.withinReach, files, found, (holds _).mpr
    ⟨by decide +kernel, ["src", "a.ts"], ⟨["work"], .file [], by decide +kernel, by decide +kernel,
      rfl⟩, by decide +kernel⟩, fun member => ?_, fun member => ?_,
    spellings ⟨"src/a.ts"⟩ (by decide)⟩
  · exact absurd ((holds _).mp member).1 (by decide +kernel)
  · exact absurd ((holds _).mp member).1 (by decide +kernel)

/-! An entry that is neither a file nor a directory, such as a named pipe. -/
namespace Piped

def tree : FileTree :=
  ⟨[(["work"], .directory), (["work", "src"], .directory), (["work", "src", "p.ts"], .special)]⟩

def selection : Selection := .of ⟨"/work"⟩ ["src"] [] ["ts"]

theorem sound : tree.Sound where
  named := by
    unfold FileTree.Named IsStep
    decide +kernel
  usable := by decide +kernel
  apart := by decide +kernel
  rooted := by decide +kernel

end Piped

/-- Below an included directory what is special passes for a file, though it is none; a special
entry that is included itself does not. -/
theorem Selection.discover_takes_special :
    Piped.tree.Sound ∧ Piped.selection.discover Piped.tree = .ok [⟨"src/p.ts"⟩] ∧
      Piped.selection.selects ⟨"src/p.ts"⟩ = true ∧ Piped.tree.isFile ⟨"/work/src/p.ts"⟩ = false ∧
      (¬ ∃ names, Piped.tree.Holds ⟨"/work"⟩ names ∧
        (⟨"src/p.ts"⟩ : SourcePath) = ofComponents (names.map .name)) ∧
      (Selection.of ⟨"/work"⟩ ["src/p.ts"] [] ["ts"]).discover Piped.tree = .ok [] := by
  refine ⟨Piped.sound, by decide +kernel, by decide +kernel, by decide +kernel, ?_,
    by decide +kernel⟩
  rintro ⟨names, ⟨top, node, atRoot, found, file⟩, _written⟩
  have files : ∀ entry ∈ (["work"], Node.directory) :: Piped.tree.nodes, entry.2.isFile = false := by
    decide
  cases (show Piped.tree.directoryAt? ⟨"/work"⟩ = some ["work"] by decide +kernel).symm.trans atRoot
  rw [files _ (List.mem_cons_of_mem _
    (FileTree.mem_nodes_of_find? (List.cons_ne_nil _ _) found))] at file
  cases file

end Reanalysis
