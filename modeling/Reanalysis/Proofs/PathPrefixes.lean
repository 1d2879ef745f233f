/-
Prefixes of paths, as the filter of issues and as the selection of files read them. Both ask
whether the components of a pattern are the first ones of a path. The selection writes its
patterns without their `.` steps before it asks; the filter takes them as they are written. So
to the filter a pattern that begins with a `.` is a prefix of no found file; otherwise the two
agree about all files that are found as relative paths.
-/

import Reanalysis.IssueFilter
import Reanalysis.Proofs.SelectedFiles

namespace Reanalysis

open SourcePath

namespace SourcePath

variable {path pattern file : SourcePath}

def BeginsHere (path : SourcePath) : Prop :=
  path.text.toList = ['.'] ∨ ['.', '/'] <+: path.text.toList

instance (path : SourcePath) : Decidable path.BeginsHere := inferInstanceAs (Decidable (_ ∨ _))

/-- Whether a pattern is the same prefix of a found file with and without its `.` steps. An
absolute file has the pattern for a prefix only if there is nothing in it. -/
def ReadAlike (file pattern : SourcePath) : Prop :=
  ¬pattern.BeginsHere ∧ (file.isAbsolute = true → pattern.text = "")

instance (file pattern : SourcePath) : Decidable (ReadAlike file pattern) :=
  inferInstanceAs (Decidable (_ ∧ _))

theorem beginsHere_iff (path : SourcePath) :
    path.BeginsHere ↔ (path.text.toList.splitOn '/').head? = some ['.'] := by
  unfold BeginsHere
  constructor
  · intro front
    rcases front with whole | ⟨rest, written⟩
    · rw [whole]
      decide
    · rw [← written]
      change (List.splitOn '/' (['.'] ++ '/' :: rest)).head? = some ['.']
      rw [List.splitOn_append_cons_self]
      rfl
  · intro first
    obtain ⟨others, cut⟩ := List.head?_eq_some_iff.mp first
    have joined : ['/'].intercalate (path.text.toList.splitOn '/') = path.text.toList :=
      List.intercalate_splitOn '/'
    rw [cut] at joined
    cases others with
    | nil => exact Or.inl joined.symm
    | cons next more =>
        rw [List.intercalate_cons_cons] at joined
        exact Or.inr ⟨_, joined⟩

theorem components_relative (relative : path.isAbsolute = false) :
    path.components = (if path.BeginsHere then [.here] else []) ++ steps path.text.toList := by
  rw [components_eq, relative, if_neg Bool.false_ne_true]
  simp only [beginsHere_iff]

theorem component_eq_none {piece : List Char} (idle : component piece = none) :
    piece = [] ∨ piece = ['.'] := by
  unfold component at idle
  split at idle
  · assumption
  · split at idle <;> cases idle

theorem components_eq_nil_iff (path : SourcePath) : path.components = [] ↔ path.text = "" := by
  constructor
  · intro nothing
    cases written : path.text.toList with
    | nil => exact String.toList_eq_nil_iff.mp written
    | cons first rest =>
        rw [components_eq, List.append_eq_nil_iff] at nothing
        obtain ⟨noFront, noSteps⟩ := nothing
        split at noFront
        · cases noFront
        · rename_i relative
          split at noFront
          · cases noFront
          · rename_i notHere
            have ordinary : (first == '/') = false := by
              rw [beq_eq_false_iff_ne]
              rintro rfl
              exact relative ((isAbsolute_iff path).mpr ⟨rest, written⟩)
            obtain ⟨piece, others, cut⟩ :=
              List.exists_cons_of_ne_nil (List.splitOn_ne_nil '/' rest)
            unfold steps at noSteps
            rw [written, List.splitOn_cons_eq_if_modifyHead, ordinary, if_neg Bool.false_ne_true,
              cut, List.modifyHead_cons] at notHere noSteps
            rcases component_eq_none (List.filterMap_eq_nil_iff.mp noSteps _ List.mem_cons_self)
              with empty | here
            · cases empty
            · exact absurd (congrArg some here) notHere
  · intro empty
    obtain ⟨text⟩ := path
    cases empty
    decide

theorem normalize_relative (relative : path.isAbsolute = false) :
    path.normalize = ofComponents (steps path.text.toList) := by
  unfold normalize
  rw [Selection.filter_components relative]

theorem components_normalize (relative : path.isAbsolute = false) :
    path.normalize.components = steps path.text.toList := by
  rw [normalize_relative relative]
  exact components_ofComponents (fun part => isStep_of_mem_steps)

theorem normalize_written (relative : path.isAbsolute = false) : path.normalize.Written := by
  rw [normalize_relative relative]
  exact ⟨_, fun part => isStep_of_mem_steps, rfl⟩

theorem normalize_absolute (absolute : path.isAbsolute = true) :
    path.normalize.isAbsolute = true := by
  unfold normalize
  rw [components_of_absolute absolute, List.filter_cons_of_pos (by decide), isAbsolute_iff]
  exact ⟨_, String.toList_append⟩

theorem not_startsWith_of_here (written : file.Written)
    (relative : pattern.isAbsolute = false) (front : pattern.BeginsHere) :
    file.startsWith pattern = false := by
  obtain ⟨parts, allSteps, rfl⟩ := written
  unfold startsWith
  rw [components_relative relative, if_pos front, components_ofComponents allSteps]
  cases parts with
  | nil => rfl
  | cons part rest =>
      rw [List.singleton_append, List.isPrefixOf_cons_cons, Bool.and_eq_false_iff]
      exact Or.inl (beq_eq_false_iff_ne.mpr (allSteps part List.mem_cons_self).ne_here.symm)

end SourcePath

namespace Selection

variable {root file pattern : SourcePath} {tree : FileTree} {selection : Selection}

theorem written_of_mem_inventory {included excluded extensions : List String}
    (absolute : root.isAbsolute = true)
    (member : file ∈ (of root included excluded extensions).inventory tree) :
    file.isAbsolute = true ∨ file.Written := by
  obtain ⟨entry, listed, inFound⟩ := found_of_mem_inventory member
  rcases mem_found.mp inFound with ⟨_none, _isFile, _joined, same⟩ | ⟨_place, _directory, later⟩
  · cases same
    obtain ⟨text, _given, rfl⟩ := List.mem_map.mp listed
    cases kind : (SourcePath.mk text).isAbsolute with
    | true => exact Or.inl (normalize_absolute kind)
    | false => exact Or.inr (normalize_written kind)
  · obtain ⟨_next, rest, _judged, extended, rfl⟩ := of_mem_search later
    exact Or.inr ⟨rest, isStep_of_below_absolute absolute extended, rfl⟩

/-! ### One pattern -/

def covers (selection : Selection) (pattern file : SourcePath) : Bool :=
  pattern.normalize.components.isPrefixOf (selection.relative file)

theorem startsWith_iff (absolute : selection.root.isAbsolute = true)
    (found : file.isAbsolute = true ∨ file.Written) (relative : pattern.isAbsolute = false) :
    file.startsWith pattern = true ↔ selection.covers pattern file = true ∧
      ReadAlike file pattern := by
  unfold covers ReadAlike
  rw [components_normalize relative]
  by_cases front : pattern.BeginsHere
  case pos =>
    have apart : file.startsWith pattern = false := by
      rcases found with outright | written
      · unfold startsWith
        rw [components_relative relative, if_pos front, components_of_absolute outright]
        rfl
      · exact not_startsWith_of_here written relative front
    rw [apart]
    exact ⟨nofun, fun alike => absurd front alike.2.1⟩
  case neg =>
    have plain : pattern.components = steps pattern.text.toList := by
      rw [components_relative relative, if_neg front, List.nil_append]
    rcases found with outright | written
    · have apart : file.startsWith pattern = true ↔ pattern.text = "" := by
        rw [← components_eq_nil_iff]
        unfold startsWith
        rw [components_of_absolute outright]
        cases parts : pattern.components with
        | nil => exact ⟨fun _ => rfl, fun _ => rfl⟩
        | cons part rest =>
            have step : IsStep part :=
              isStep_of_mem_steps (plain ▸ parts ▸ List.mem_cons_self)
            rw [List.isPrefixOf_cons_cons, beq_eq_false_iff_ne.mpr step.ne_root]
            exact ⟨nofun, nofun⟩
      rw [apart]
      constructor
      · intro empty
        rw [empty]
        exact ⟨rfl, front, fun _ => rfl⟩
      · intro alike
        exact alike.2.2 outright
    · obtain ⟨parts, allSteps, rfl⟩ := written
      unfold startsWith
      rw [plain, components_ofComponents allSteps, relative_ofComponents absolute allSteps,
        ofComponents_relative allSteps]
      exact ⟨fun leads => ⟨leads, front, nofun⟩, fun alike => alike.1⟩

theorem selects_excluding (root file : SourcePath) (included excluded extensions : List String)
    (pattern : String) :
    (of root included (pattern :: excluded) extensions).selects file =
      ((of root included excluded extensions).selects file &&
        !(of root included excluded extensions).covers ⟨pattern⟩ file) := by
  have more (steps : List Component) :
      under steps (of root included (pattern :: excluded) extensions).excluded =
        ((SourcePath.mk pattern).normalize.components.isPrefixOf steps ||
          under steps (of root included excluded extensions).excluded) :=
    List.any_cons
  unfold selects covers
  dsimp only
  rw [more, Bool.not_or, Bool.and_comm (!_), ← Bool.and_assoc]
  rfl

theorem selects_including {included excluded extensions : List String}
    (selected : (of root included excluded extensions).selects file = true) (pattern : String) :
    (of root [pattern] excluded extensions).selects file =
      (of root included excluded extensions).covers ⟨pattern⟩ file := by
  unfold selects at selected ⊢
  simp only [Bool.and_eq_true] at selected
  obtain ⟨⟨⟨⟨inside, visible⟩, extension⟩, _within⟩, clear⟩ := selected
  have judged : (of root [pattern] excluded extensions).relative file =
      (of root included excluded extensions).relative file := rfl
  have only : under ((of root included excluded extensions).relative file)
      (of root [pattern] excluded extensions).included =
        (of root included excluded extensions).covers ⟨pattern⟩ file :=
    Bool.or_false _
  dsimp only
  rw [judged, only, inside, visible, Bool.true_and, Bool.true_and]
  change (_ && _ && !under _ (of root included excluded extensions).excluded) = _
  rw [clear, Bool.and_true]
  change ((extension? _).any (of root included excluded extensions).extensions.contains && _) = _
  rw [extension, Bool.true_and]

end Selection

namespace IssueFilter

variable {table : IssuesTable} {issue : Issue}

theorem keeps_excluding (table : IssuesTable) (issue : Issue) (pattern : String) :
    (ofTable { table with excluded := pattern :: table.excluded }).keeps issue =
      ((ofTable table).keeps issue && !issue.file.startsWith ⟨pattern⟩) := by
  unfold keeps ofTable
  dsimp only
  rw [List.map_cons, List.any_cons, Bool.not_or, Bool.and_comm (!_), ← Bool.and_assoc,
    Bool.and_right_comm]

theorem keeps_including (kept : (ofTable table).keeps issue = true) (pattern : String) :
    (ofTable { table with included := [pattern] }).keeps issue =
      issue.file.startsWith ⟨pattern⟩ := by
  unfold keeps at kept ⊢
  simp only [Bool.and_eq_true] at kept
  obtain ⟨⟨⟨severe, published⟩, clear⟩, _within⟩ := kept
  have only : ([pattern].map SourcePath.mk).any issue.file.startsWith =
      issue.file.startsWith ⟨pattern⟩ :=
    Bool.or_false _
  unfold ofTable at severe published clear ⊢
  dsimp only at severe published clear ⊢
  rw [severe, published, clear, only]
  rfl

/-- Whatever files are found: a relative pattern among the excluded ones drops the issues of a
file that were kept, and alone among the included ones keeps them, exactly if it does so to the
file itself in a selection under the same root, and is the same prefix with and without its `.`
steps. -/
theorem prefixes_agree {root file : SourcePath} {tree : FileTree}
    {included excluded extensions : List String} {pattern : String}
    (absolute : root.isAbsolute = true)
    (discovered : file ∈ (Selection.of root included excluded extensions).inventory tree)
    (relative : (SourcePath.mk pattern).isAbsolute = false)
    {ownIncluded ownExcluded ownExtensions : List String}
    (selected : (Selection.of root ownIncluded ownExcluded ownExtensions).selects file = true)
    (about : issue.file = file) (kept : (ofTable table).keeps issue = true) :
    ((ofTable { table with excluded := pattern :: table.excluded }).keeps issue = false ↔
        (Selection.of root ownIncluded (pattern :: ownExcluded) ownExtensions).selects file =
          false ∧ ReadAlike file ⟨pattern⟩) ∧
      ((ofTable { table with included := [pattern] }).keeps issue = true ↔
        (Selection.of root [pattern] ownExcluded ownExtensions).selects file = true ∧
          ReadAlike file ⟨pattern⟩) := by
  have found := Selection.written_of_mem_inventory absolute discovered
  have test : file.startsWith ⟨pattern⟩ = true ↔
      (Selection.of root ownIncluded ownExcluded ownExtensions).covers ⟨pattern⟩ file = true ∧
        ReadAlike file ⟨pattern⟩ :=
    Selection.startsWith_iff absolute found relative
  constructor
  · rw [keeps_excluding, Selection.selects_excluding, kept, selected, Bool.true_and,
      Bool.true_and, Bool.not_eq_false', Bool.not_eq_false', about]
    exact test
  · rw [keeps_including kept, Selection.selects_including selected, about]
    exact test

end IssueFilter

/-! A generated file, below the directory that is included. -/
namespace Prefixed

def tree : FileTree :=
  ⟨[(["work"], .directory), (["work", "src"], .directory), (["work", "src", "gen"], .directory),
    (["work", "src", "gen", "a.ts"], .file [])]⟩

def issue : Issue :=
  { file := ⟨"src/gen/a.ts"⟩, line := 1, column := 1, severity := .error, code := "E001"
    message := "msg", source := .typeCheck }

end Prefixed

/-- A pattern with a `.` within it and a separator at its end is one prefix for both. -/
theorem IssueFilter.prefixes_agree_of_inner_dots :
    Prefixed.issue.file ∈ (Selection.of ⟨"/work"⟩ ["src"] [] ["ts"]).inventory Prefixed.tree ∧
      (ofTable ⟨[], [], [], none⟩).keeps Prefixed.issue = true ∧
      (ofTable ⟨[], ["src/./gen/"], [], none⟩).keeps Prefixed.issue = false ∧
      (Selection.of ⟨"/work"⟩ ["src"] ["src/./gen/"] ["ts"]).selects Prefixed.issue.file = false ∧
      (ofTable ⟨["src/./gen/"], [], [], none⟩).keeps Prefixed.issue = true ∧
      (Selection.of ⟨"/work"⟩ ["src/./gen/"] [] ["ts"]).selects Prefixed.issue.file = true := by
  have discovered : Prefixed.issue.file ∈
      (Selection.of ⟨"/work"⟩ ["src"] [] ["ts"]).inventory Prefixed.tree := by
    decide +kernel
  have kept : (ofTable ⟨[], [], [], none⟩).keeps Prefixed.issue = true := by decide +kernel
  have relative : (SourcePath.mk "src/./gen/").isAbsolute = false := by decide
  have selected : (Selection.of ⟨"/work"⟩ ["src"] [] ["ts"]).selects Prefixed.issue.file =
      true := by
    decide +kernel
  have apart : (Selection.of ⟨"/work"⟩ ["src"] ["src/./gen/"] ["ts"]).selects
      Prefixed.issue.file = false := by
    decide +kernel
  have within : (Selection.of ⟨"/work"⟩ ["src/./gen/"] [] ["ts"]).selects
      Prefixed.issue.file = true := by
    decide +kernel
  have alike : ReadAlike Prefixed.issue.file ⟨"src/./gen/"⟩ := by decide +kernel
  obtain ⟨drops, keeps⟩ := prefixes_agree (by decide) discovered relative selected rfl kept
  exact ⟨discovered, kept, drops.mpr ⟨apart, alike⟩, apart, keeps.mpr ⟨within, alike⟩, within⟩

/-- A pattern that begins with a `.` is a prefix for the selection only: excluded, it leaves the
issues of the file that the selection stops to select, and included, it drops the issues of the
file that the selection selects. -/
theorem IssueFilter.dotted_prefix_not_filtered :
    Prefixed.issue.file ∈ (Selection.of ⟨"/work"⟩ ["src"] [] ["ts"]).inventory Prefixed.tree ∧
      (Selection.of ⟨"/work"⟩ ["src"] [] ["ts"]).selects Prefixed.issue.file = true ∧
      (Selection.of ⟨"/work"⟩ ["src"] ["./src"] ["ts"]).selects Prefixed.issue.file = false ∧
      (ofTable ⟨[], ["./src"], [], none⟩).keeps Prefixed.issue = true ∧
      (Selection.of ⟨"/work"⟩ ["./src"] [] ["ts"]).selects Prefixed.issue.file = true ∧
      (ofTable ⟨["./src"], [], [], none⟩).keeps Prefixed.issue = false := by
  decide +kernel

end Reanalysis
