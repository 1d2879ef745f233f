/-
What a watch learns by looking at its files twice. Between two looks, the change that is handed
to the engines names the files that one of them is responsible for and that were made, altered
or removed, and no others; so a watch that hands on what it sees is a faithful caller.
-/

import Reanalysis.Commands
import Reanalysis.Proofs.AcceptedConfig
import Reanalysis.Proofs.IncrementalHistory
import Reanalysis.Proofs.SnapshotPatch

namespace Reanalysis

namespace Snapshot

theorem find?_ofFiles (tree : FileTree) (root : SourcePath) {files : List SourcePath}
    (apart : files.Pairwise fun first second => first.same second = false) (key : SourcePath) :
    (ofFiles tree root files).find? key =
      (files.find? (·.same key)).bind fun file =>
        (tree.read (root.join file)).toOption.map Digest.ofBytes := by
  induction files generalizing key with
  | nil => rfl
  | cons file rest ih =>
      obtain ⟨away, others⟩ := List.pairwise_cons.mp apart
      have absent {other : SourcePath} (alike : file.same other = true) :
          rest.find? (·.same other) = none := by
        rw [List.find?_eq_none]
        intro held member heldAlike
        have clash := away held member
        rw [SourcePath.same_trans alike (SourcePath.same_symm heldAlike)] at clash
        cases clash
      have later := fun key => ih others key
      unfold ofFiles at later ⊢
      rw [List.filterMap_cons, List.find?_cons]
      cases read : tree.read (root.join file) with
      | error fault =>
          dsimp only
          rw [later]
          cases alike : file.same key with
          | false => rfl
          | true =>
              rw [absent alike, Option.bind_some, read]
              rfl
      | ok content =>
          dsimp only
          change (PathMap.upsert (PathMap.ofList _) file fun held =>
            held.getD (Digest.ofBytes content)).find? key = _
          rw [PathMap.find?_upsert]
          cases alike : file.same key with
          | false => exact later key
          | true =>
              rw [later, absent (SourcePath.same_refl file), Option.bind_some, read]
              rfl

theorem mem_of_mem_keys {tree : FileTree} {root file : SourcePath} {files : List SourcePath}
    (member : file ∈ (ofFiles tree root files).keys) : file ∈ files := by
  induction files with
  | nil => cases member
  | cons first rest ih =>
      unfold ofFiles at ih member
      rw [List.filterMap_cons] at member
      cases read : tree.read (root.join first) with
      | error fault =>
          rw [read] at member
          exact List.mem_cons_of_mem _ (ih member)
      | ok content =>
          rw [read] at member
          obtain ⟨entry, present, rfl⟩ := List.mem_map.mp member
          change entry ∈ (PathMap.upsert (PathMap.ofList _) first _).entries at present
          rw [PathMap.upsert_entries] at present
          rcases PathMap.mem_place present with here | ⟨digest, later⟩
          · rw [here]
            exact List.mem_cons_self
          · exact List.mem_cons_of_mem _ (ih (List.mem_map.mpr ⟨_, later, rfl⟩))

end Snapshot

open SourcePath

namespace SourcePath

theorem isAbsolute_ofComponents (rest : List Component) :
    (ofComponents (.root :: rest)).isAbsolute = true := by
  rw [isAbsolute_iff]
  unfold ofComponents
  rw [String.toList_append]
  exact ⟨_, rfl⟩

theorem isAbsolute_absolute (path : SourcePath) {here : SourcePath}
    (given : here.isAbsolute = true) : (path.absolute here).isAbsolute = true := by
  have extended (joined : SourcePath) (more : Prop) [Decidable more]
      (front : joined.isAbsolute = true) :
      (if more then (⟨joined.text ++ "/"⟩ : SourcePath) else joined).isAbsolute = true := by
    obtain ⟨rest, written⟩ := (isAbsolute_iff joined).mp front
    split
    · rw [isAbsolute_iff, String.toList_append, written]
      exact ⟨_, rfl⟩
    · exact front
  unfold absolute
  apply extended
  split
  · rename_i rooted
    have first : ∃ rest, path.components.filter (· ≠ .here) = .root :: rest := by
      rw [components_of_absolute rooted]
      exact ⟨_, List.filter_cons_of_pos (by decide)⟩
    obtain ⟨rest, steps⟩ := first
    rw [steps]
    obtain ⟨tail, written⟩ := (isAbsolute_iff _).mp (isAbsolute_ofComponents rest)
    rw [isAbsolute_iff, String.toList_append, written]
    split <;> exact ⟨_, rfl⟩
  · split
    · exact given
    · exact join_isAbsolute given

theorem directory_of_absolute {path : SourcePath} (absolute : path.isAbsolute = true)
    (deeper : steps path.text.toList ≠ []) :
    ∃ above, path.directory = some above ∧ above.isAbsolute = true := by
  obtain ⟨last, ends⟩ : ∃ last, (steps path.text.toList).getLast? = some last :=
    Option.isSome_iff_exists.mp (List.getLast?_isSome.mpr deeper)
  have notRoot := (isStep_of_mem_steps (List.mem_of_getLast? ends)).ne_root
  have components := components_of_absolute absolute
  have final : path.components.getLast? = some last := by
    rw [components, List.getLast?_cons, ends, Option.getD_some]
  refine ⟨ofComponents path.components.dropLast, ?_, ?_⟩
  · unfold directory
    rw [final]
    cases last with
    | root => exact absurd rfl notRoot
    | here => rfl
    | parent => rfl
    | name text => rfl
  · rw [components, List.dropLast_cons_of_ne_nil deeper]
    exact isAbsolute_ofComponents _

end SourcePath

theorem FileTree.steps_of_read {tree : FileTree} {path : SourcePath} {content : List UInt8}
    (read : tree.read path = .ok content) : steps path.text.toList ≠ [] := by
  intro top
  obtain ⟨place, resolved, node⟩ := read_eq_ok read
  have walked := walk_steps (follow_of_resolve resolved)
  rw [filter_isSignificant, show (path.text.toList.splitOn '/').filterMap component = [] from top]
    at walked
  cases walked
  cases node

namespace Project

theorem isAbsolute_root {tree : FileTree} {here path : SourcePath} {project : Project}
    (loaded : load tree here path = .ok project) (given : here.isAbsolute = true) :
    project.root.isAbsolute = true := by
  have absolute := isAbsolute_absolute path given
  unfold load at loaded
  dsimp only at loaded
  cases configured : Config.load tree (path.absolute here) with
  | error problem => rw [configured] at loaded; cases loaded
  | ok config =>
      rw [configured] at loaded
      cases loaded
      have read : ∃ content, tree.read (path.absolute here) = .ok content := by
        unfold Config.load FileTree.readText at configured
        cases found : tree.read (path.absolute here) with
        | error fault => rw [found] at configured; cases configured
        | ok content => exact ⟨content, rfl⟩
      obtain ⟨content, read⟩ := read
      obtain ⟨above, directory, rooted⟩ :=
        directory_of_absolute absolute (FileTree.steps_of_read read)
      dsimp only
      rw [directory]
      exact rooted

theorem isAbsolute_root_of_openProject {settings : Settings} {tree : FileTree} {here : SourcePath}
    {project : Project} (opened : Commands.openProject settings tree here = .ok project)
    (given : here.isAbsolute = true) : project.root.isAbsolute = true := by
  unfold Commands.openProject at opened
  cases located : locate tree here settings.config with
  | error explanation => rw [located] at opened; cases opened
  | ok path =>
      rw [located] at opened
      change (load tree here path).mapError ConfigError.describe = .ok project at opened
      cases loaded : load tree here path with
      | error problem => rw [loaded] at opened; cases opened
      | ok found =>
          rw [loaded] at opened
          cases opened
          exact isAbsolute_root loaded given

end Project

/-! ### What is watched -/

/-- The enabled engines include files by patterns that are relative and do not lead upwards. -/
def Config.LooksDown (config : Config) : Prop :=
  ∀ engine ∈ config.enabledEngines, ∀ text ∈ engine.2.included.getD config.files.included,
    (SourcePath.mk text).isAbsolute = false ∧ .parent ∉ (SourcePath.mk text).components

namespace Project

variable (project : Project)

/-- Whether some enabled engine is responsible for a file. -/
def Watches (file : SourcePath) : Prop :=
  ∃ engine ∈ project.config.enabledEngines, (project.selection engine.1).selects file = true

def content? (tree : FileTree) (file : SourcePath) : Option (List UInt8) :=
  (tree.read (project.root.join file)).toOption

/-- All files that the enabled engines come upon, in file order. -/
def inventory (tree : FileTree) : List SourcePath :=
  (PathSet.ofFiles (project.config.enabledEngines.flatMap fun engine =>
    (project.selection engine.1).inventory tree)).files

def hashes (tree : FileTree) : Snapshot := Snapshot.ofFiles tree project.root (project.inventory tree)

/-- Whether all directories can be listed that the engines search. -/
def Explorable (tree : FileTree) : Prop :=
  ∀ engine ∈ project.config.enabledEngines, (project.selection engine.1).Explorable tree

instance (tree : FileTree) : Decidable (project.Explorable tree) :=
  inferInstanceAs (Decidable (∀ engine ∈ project.config.enabledEngines,
    (project.selection engine.1).Explorable tree))

theorem watchedFiles_cases (tree : FileTree) :
    project.Explorable tree ∧ project.watchedFiles tree = .ok (project.inventory tree) ∨
      ¬project.Explorable tree ∧ ∃ error, project.watchedFiles tree = .error error := by
  have asked : project.watchedFiles tree = (project.config.enabledEngines.mapM fun engine =>
      (project.selection engine.1).discover tree).bind fun found =>
        .ok (PathSet.ofFiles found.flatten).files := rfl
  rw [asked]
  rcases Selection.mapM_cases (fun engine : EngineKind × EngineTable =>
    (project.selection engine.1).discover tree) project.config.enabledEngines with
    ⟨same, all⟩ | ⟨error, failed, engine, enabled, stopped⟩
  · have explorable : project.Explorable tree := fun engine enabled =>
      Selection.explorable_of_discover (all engine enabled).choose_spec
    have each : project.config.enabledEngines.filterMap (fun engine =>
        ((project.selection engine.1).discover tree).toOption) =
          project.config.enabledEngines.map fun engine =>
            (project.selection engine.1).inventory tree := by
      rw [← List.filterMap_eq_map]
      refine List.filterMap_congr fun engine enabled => ?_
      rw [show (project.selection engine.1).discover tree = .ok _ from explorable engine enabled]
      rfl
    refine Or.inl ⟨explorable, ?_⟩
    unfold inventory
    rw [same, each, List.flatMap_def]
    rfl
  · refine Or.inr ⟨fun explorable => ?_, error, ?_⟩
    · have found : (project.selection engine.1).discover tree = .ok _ := explorable engine enabled
      rw [stopped] at found
      cases found
    · rw [failed]
      rfl

theorem snapshot_of_explorable {tree : FileTree} (explorable : project.Explorable tree) :
    project.snapshot tree = .ok (project.hashes tree) := by
  rcases project.watchedFiles_cases tree with ⟨_, found⟩ | ⟨closed, _⟩
  · unfold snapshot hashes
    rw [found]
    rfl
  · exact absurd explorable closed

theorem snapshot_of_closed {tree : FileTree} (closed : ¬project.Explorable tree) :
    ∃ error, project.snapshot tree = .error error := by
  rcases project.watchedFiles_cases tree with ⟨explorable, _⟩ | ⟨_, error, failed⟩
  · exact absurd explorable closed
  · unfold snapshot
    rw [failed]
    exact ⟨error, rfl⟩

/-- What becomes of the files that are watched, from one tree to another. -/
def edits (before after : FileTree) : Difference :=
  Difference.between (project.hashes after) (project.hashes before)

theorem scan_cases (place : Workplace) :
    place.site.project.Explorable place.site.tree ∧
        place.scan = .ok
          (Difference.between (place.site.project.hashes place.site.tree) place.scanned,
            { place with scanned := place.site.project.hashes place.site.tree }) ∨
      ¬place.site.project.Explorable place.site.tree ∧ ∃ error, place.scan = .error error := by
  unfold Workplace.scan
  by_cases explorable : place.site.project.Explorable place.site.tree
  · left
    rw [snapshot_of_explorable _ explorable]
    exact ⟨explorable, rfl⟩
  · obtain ⟨error, failed⟩ := snapshot_of_closed _ explorable
    right
    rw [failed]
    exact ⟨explorable, error, rfl⟩

/-- Whether the selections of all enabled engines are regular. -/
def Regular : Prop :=
  ∀ engine ∈ project.config.enabledEngines, (project.selection engine.1).Regular

variable {project}

theorem regular_of_looksDown (rooted : project.root.isAbsolute = true)
    (down : project.config.LooksDown) : project.Regular := by
  intro engine enabled
  have table : project.config.engines.find? engine.1 = some engine.2 :=
    (Config.mem_enabledEngines.mp enabled).1
  unfold selection Config.selection
  rw [table]
  exact Selection.of_regular _ _ _ rooted (down engine enabled)

variable {tree : FileTree} {file : SourcePath}

theorem written_of_discovered (regular : project.Regular)
    (found : ∃ engine ∈ project.config.enabledEngines,
      file ∈ (project.selection engine.1).inventory tree) : file.Written := by
  obtain ⟨engine, enabled, member⟩ := found
  exact (Selection.of_mem_inventory (regular engine enabled) member).2

theorem mem_inventory (regular : project.Regular) :
    file ∈ project.inventory tree ↔
      ∃ engine ∈ project.config.enabledEngines,
        file ∈ (project.selection engine.1).inventory tree := by
  let discovered := project.config.enabledEngines.flatMap fun engine =>
    (project.selection engine.1).inventory tree
  have whole : project.inventory tree = (PathSet.addAll PathMap.empty discovered).files := rfl
  rw [whole, ← List.mem_flatMap]
  constructor
  · intro member
    exact (PathSet.mem_files_addAll member).resolve_left List.not_mem_nil
  · intro found
    have contained : (PathSet.addAll PathMap.empty discovered).contains file = true := by
      rw [PathSet.contains_addAll, Bool.or_eq_true, List.any_eq_true]
      exact Or.inr ⟨file, found, same_refl file⟩
    obtain ⟨held, present, alike⟩ := (PathSet.contains_iff _ _).mp contained
    have heldFound := (PathSet.mem_files_addAll present).resolve_left List.not_mem_nil
    have written := written_of_discovered regular (List.mem_flatMap.mp heldFound)
    rw [← written.eq_of_same (written_of_discovered regular (List.mem_flatMap.mp found)) alike]
    exact present

theorem inventory_apart (project : Project) (tree : FileTree) :
    (project.inventory tree).Pairwise fun first second => first.same second = false :=
  PathSet.files_apart _

theorem find?_hashes (regular : project.Regular) (plain : file.Plain)
    (watched : project.Watches file) :
    (project.hashes tree).find? file = (project.content? tree file).map Digest.ofBytes := by
  unfold hashes
  rw [Snapshot.find?_ofFiles tree project.root (project.inventory_apart tree)]
  cases found : (project.inventory tree).find? (·.same file) with
  | some held =>
      have alike := List.find?_some found
      have present := (mem_inventory regular).mp (List.mem_of_find?_eq_some found)
      rw [(written_of_discovered regular present).eq_of_same plain.written alike]
      rfl
  | none =>
      rw [Option.bind_none, eq_comm, Option.map_eq_none_iff]
      unfold content?
      cases read : tree.read (project.root.join file) with
      | error fault => rfl
      | ok content =>
          obtain ⟨engine, enabled, selected⟩ := watched
          have member := Selection.mem_inventory_of_read (regular engine enabled) plain selected read
          have missed := List.find?_eq_none.mp found file
            ((mem_inventory regular).mpr ⟨engine, enabled, member⟩)
          exact absurd (same_refl file) missed

theorem exists_of_find?_hashes {digest : Digest}
    (found : (project.hashes tree).find? file = some digest) :
    ∃ held ∈ project.inventory tree, held.same file = true := by
  unfold hashes at found
  rw [Snapshot.find?_ofFiles tree project.root (project.inventory_apart tree)] at found
  obtain ⟨held, first, _⟩ := Option.bind_eq_some_iff.mp found
  have alike := List.find?_some first
  exact ⟨held, List.mem_of_find?_eq_some first, alike⟩

theorem find?_hashes_of_unwatched (regular : project.Regular) (unwatched : ¬project.Watches file) :
    (project.hashes tree).find? file = none := by
  rw [Option.eq_none_iff_forall_ne_some]
  intro digest found
  obtain ⟨held, present, alike⟩ := exists_of_find?_hashes found
  obtain ⟨engine, enabled, member⟩ := (mem_inventory regular).mp present
  refine unwatched ⟨engine, enabled, ?_⟩
  rw [← Selection.selects_of_same alike]
  exact (Selection.of_mem_inventory (regular engine enabled) member).1

variable {before after : FileTree}

/-- No file of the project gets another content with the same hash. -/
def HashesDiffer (project : Project) (before after : FileTree) : Prop :=
  ∀ file old new, project.content? before file = some old →
    project.content? after file = some new → Digest.ofBytes old = Digest.ofBytes new → old = new

/-- The files that are named as changed are those that are watched and new, or altered. -/
theorem changed_edits (regular : project.Regular) (differ : project.HashesDiffer before after)
    (plain : file.Plain) :
    (project.edits before after).toChange.changed.contains file = true ↔
      project.Watches file ∧ ∃ new, project.content? after file = some new ∧
        project.content? before file ≠ some new := by
  unfold edits
  rw [Difference.changed_toChange]
  by_cases watched : project.Watches file
  · rw [find?_hashes regular plain watched, find?_hashes regular plain watched,
      and_iff_right watched]
    constructor
    · rintro ⟨digest, hashed, other⟩
      obtain ⟨new, present, rfl⟩ := Option.map_eq_some_iff.mp hashed
      refine ⟨new, present, fun same => other ?_⟩
      rw [same]
      rfl
    · rintro ⟨new, present, altered⟩
      refine ⟨Digest.ofBytes new, by rw [present]; rfl, fun hashed => altered ?_⟩
      obtain ⟨old, past, same⟩ := Option.map_eq_some_iff.mp hashed
      rw [past, differ file old new past present same]
  · rw [find?_hashes_of_unwatched regular watched]
    simp [watched]

/-- The files that are named as deleted are those that are watched and gone. -/
theorem deleted_edits (regular : project.Regular) (plain : file.Plain) :
    (project.edits before after).toChange.deleted.contains file = true ↔
      project.Watches file ∧ (project.content? before file).isSome = true ∧
        project.content? after file = none := by
  unfold edits
  rw [Difference.deleted_toChange]
  by_cases watched : project.Watches file
  · rw [find?_hashes regular plain watched, find?_hashes regular plain watched,
      and_iff_right watched, Option.isSome_map, Option.map_eq_none_iff]
  · rw [find?_hashes_of_unwatched regular watched, find?_hashes_of_unwatched regular watched]
    simp [watched]

theorem plain_of_mem_keys (regular : project.Regular) (named : tree.Named)
    (member : file ∈ (project.hashes tree).keys) : file.Plain := by
  obtain ⟨engine, enabled, present⟩ :=
    (mem_inventory regular).mp (Snapshot.mem_of_mem_keys member)
  exact Selection.plain_of_mem_inventory (regular engine enabled) named present

theorem plain_of_edits (regular : project.Regular) (namedBefore : before.Named)
    (namedAfter : after.Named)
    (member : file ∈ (project.edits before after).toChange.changed.files ∨
      file ∈ (project.edits before after).toChange.deleted.files) : file.Plain := by
  have kept {snapshot : Snapshot} {test : SourcePath → Digest → Bool}
      (inWhere : file ∈ Difference.keysWhere snapshot test) : file ∈ snapshot.keys := by
    obtain ⟨entry, present, rfl⟩ := List.mem_map.mp inWhere
    exact List.mem_map_of_mem (List.mem_filter.mp present).1
  rcases member with changed | deleted
  · apply plain_of_mem_keys regular namedAfter
    rcases List.mem_append.mp (Change.mem_changed_ofFiles changed) with added | modified
    · exact kept added
    · exact kept modified
  · apply plain_of_mem_keys regular namedBefore
    exact kept ((PathSet.mem_files_addAll deleted).resolve_left List.not_mem_nil)

theorem isEmpty_edits (regular : project.Regular) (differ : project.HashesDiffer before after)
    (namedBefore : before.Named) (namedAfter : after.Named) :
    (project.edits before after).toChange.isEmpty = true ↔
      ∀ engine ∈ project.config.enabledEngines, ∀ file : SourcePath, file.Plain →
        (project.selection engine.1).selects file = true →
          project.content? before file = project.content? after file := by
  rw [Change.isEmpty_iff]
  constructor
  · intro silent engine enabled file plain selected
    have watched : project.Watches file := ⟨engine, enabled, selected⟩
    obtain ⟨unchanged, undeleted⟩ := silent file
    rw [Bool.eq_false_iff, Ne, changed_edits regular differ plain] at unchanged
    rw [Bool.eq_false_iff, Ne, deleted_edits regular plain] at undeleted
    cases present : project.content? after file with
    | some new =>
        by_contra altered
        exact unchanged ⟨watched, new, present, altered⟩
    | none =>
        cases past : project.content? before file with
        | none => rfl
        | some old => exact absurd ⟨watched, by rw [past]; rfl, present⟩ undeleted
  · intro same file
    have agree {held : SourcePath} (plain : held.Plain) (watched : project.Watches held) :
        project.content? before held = project.content? after held := by
      obtain ⟨engine, enabled, selected⟩ := watched
      exact same engine enabled held plain selected
    constructor <;> rw [Bool.eq_false_iff] <;> intro contained
    · obtain ⟨held, member, alike⟩ := (PathSet.contains_iff _ _).mp contained
      have plain := plain_of_edits regular namedBefore namedAfter (Or.inl member)
      obtain ⟨watched, new, present, altered⟩ :=
        (changed_edits regular differ plain).mp (PathSet.contains_of_mem member)
      exact altered ((agree plain watched).trans present)
    · obtain ⟨held, member, alike⟩ := (PathSet.contains_iff _ _).mp contained
      have plain := plain_of_edits regular namedBefore namedAfter (Or.inr member)
      obtain ⟨watched, past, gone⟩ :=
        (deleted_edits regular plain).mp (PathSet.contains_of_mem member)
      rw [agree plain watched, gone] at past
      cases past

/-! ### What the engines are told -/

/-- A tree with proper names, in which discovery comes to its end and all that it finds can be
read. -/
structure Watchable (project : Project) (tree : FileTree) : Prop where
  named : tree.Named
  readable : ∀ engine ∈ project.config.enabledEngines, (project.selection engine.1).Readable tree

theorem Watchable.explorable (watchable : project.Watchable tree) : project.Explorable tree :=
  fun engine enabled => (watchable.readable engine enabled).explorable

/-- The worker of an engine, in surroundings that are all files. -/
def workerOf (project : Project) (engine : EngineKind × EngineTable) : Analyzer FileTree :=
  project.analyzer engine.1 engine.2 id fun _ => false

def polls (project : Project) (before : FileTree) : List FileTree → List (Occasion FileTree)
  | [] => []
  | after :: rest =>
      ⟨(project.edits before after).toChange, after⟩ :: project.polls after rest

variable {engine : EngineKind × EngineTable}

theorem content?_of_discovered (watchable : project.Watchable tree)
    (enabled : engine ∈ project.config.enabledEngines)
    (member : file ∈ (project.selection engine.1).inventory tree) :
    ∃ content, tree.read (project.root.join file) = .ok content ∧
      project.content? tree file = some content := by
  obtain ⟨content, read⟩ := (watchable.readable engine enabled).read file member
  have here : tree.read (project.root.join file) = .ok content := read
  refine ⟨content, here, ?_⟩
  unfold content?
  rw [here]
  rfl

theorem told_edits (regular : project.Regular) (differ : project.HashesDiffer before after)
    (watchableBefore : project.Watchable before) (watchableAfter : project.Watchable after)
    (enabled : engine ∈ project.config.enabledEngines) (earlier : Change) :
    (project.workerOf engine).Told ⟨earlier, before⟩
      ⟨(project.edits before after).toChange, after⟩ := by
  have own := regular engine enabled
  have selected {tree : FileTree} {file : SourcePath}
      (member : file ∈ (project.selection engine.1).inventory tree) :
      (project.selection engine.1).selects file = true := (Selection.of_mem_inventory own member).1
  constructor
  · intro file member altered
    obtain ⟨new, read, present⟩ := content?_of_discovered watchableAfter enabled member
    have plain := Selection.plain_of_mem_inventory own watchableAfter.named member
    refine (changed_edits regular differ plain).mpr
      ⟨⟨engine, enabled, selected member⟩, new, present, fun same => ?_⟩
    have past : before.read (project.root.join file) = .ok new := Analyzer.eq_ok_of_toOption same
    exact altered (Selection.mem_inventory_of_read own plain (selected member) past)
      (read.trans past.symm)
  · intro file member missing
    obtain ⟨old, _, past⟩ := content?_of_discovered watchableBefore enabled member
    have plain := Selection.plain_of_mem_inventory own watchableBefore.named member
    refine (deleted_edits regular plain).mpr
      ⟨⟨engine, enabled, selected member⟩, by rw [past]; rfl, ?_⟩
    unfold content?
    cases read : after.read (project.root.join file) with
    | error fault => rfl
    | ok content =>
        exact absurd (Selection.mem_inventory_of_read own plain (selected member) read) missing

theorem not_deleted_of_discovered (regular : project.Regular) (watchable : project.Watchable after)
    (enabled : engine ∈ project.config.enabledEngines)
    (member : file ∈ (project.selection engine.1).inventory after) :
    (project.edits before after).toChange.deleted.contains file = false := by
  obtain ⟨content, _, present⟩ := content?_of_discovered watchable enabled member
  have plain := Selection.plain_of_mem_inventory (regular engine enabled) watchable.named member
  rw [Bool.eq_false_iff, Ne, deleted_edits regular plain, present]
  exact fun gone => nomatch gone.2.2

theorem leftDeleted_workerOf (calls : List (Occasion FileTree)) (file : SourcePath) :
    (project.workerOf engine).leftDeleted calls file = false := by
  unfold Analyzer.leftDeleted
  induction calls with
  | nil => rfl
  | cons call rest ih => exact ih

/-- A watch is a faithful caller of each of its engines, whatever trees it finds. -/
theorem faithful_polls (regular : project.Regular)
    (enabled : engine ∈ project.config.enabledEngines) (first : FileTree) (rest : List FileTree)
    (watchable : ∀ tree ∈ first :: rest, project.Watchable tree)
    (differ : (first :: rest).IsChain project.HashesDiffer) :
    (project.workerOf engine).Faithful (⟨Change.empty, first⟩ :: project.polls first rest) := by
  have grown (rest : List FileTree) : ∀ (calls : List (Occasion FileTree)) (change : Change)
      (before : FileTree), (∀ tree ∈ before :: rest, project.Watchable tree) →
      (before :: rest).IsChain project.HashesDiffer →
      (project.workerOf engine).Faithful (calls ++ [⟨change, before⟩]) →
      (project.workerOf engine).Faithful
        (calls ++ ⟨change, before⟩ :: project.polls before rest) := by
    induction rest with
    | nil => exact fun calls change before _ _ faithful => faithful
    | cons after rest ih =>
        intro calls change before watchable differ faithful
        obtain ⟨here, later⟩ := List.isChain_cons_cons.mp differ
        have watchableBefore := watchable before List.mem_cons_self
        have watchableAfter := watchable after (by simp)
        have added := faithful.concat calls
          (told_edits regular here watchableBefore watchableAfter enabled change)
          (fun file member => not_deleted_of_discovered regular watchableAfter enabled member)
          (fun file member => plain_of_edits regular watchableBefore.named watchableAfter.named
            (Or.inl member))
          (fun file left => by rw [leftDeleted_workerOf] at left; cases left)
        have further := ih (calls ++ [⟨change, before⟩]) _ after
          (fun tree member => watchable tree (List.mem_cons_of_mem _ member)) later
          (by rw [List.append_assoc]; exact added)
        rw [List.append_assoc] at further
        exact further
  refine grown rest [] Change.empty first watchable differ ?_
  exact Analyzer.Faithful.single (fun file _ => rfl) (fun file named => nomatch named)

/-- A watch has a snapshot of each of two trees that it comes upon one after the other. The change
between them names exactly the files that an enabled engine is responsible for and that are new,
altered or gone; it is empty exactly where no engine has such a file; and every engine is
faithfully told. -/
theorem polled_change {settings : Settings} {host : FileTree} {here : SourcePath}
    (opened : Commands.openProject settings host here = .ok project)
    (given : here.isAbsolute = true) (down : project.config.LooksDown)
    (watchableBefore : project.Watchable before) (watchableAfter : project.Watchable after)
    (differ : project.HashesDiffer before after) :
    ∃ old new, project.snapshot before = .ok old ∧ project.snapshot after = .ok new ∧
      let difference := Difference.between new old
      let change := difference.toChange
      (∀ file : SourcePath, file.Plain →
          (change.changed.contains file = true ↔
            project.Watches file ∧ ∃ content, project.content? after file = some content ∧
              project.content? before file ≠ some content) ∧
          (change.deleted.contains file = true ↔
            project.Watches file ∧ (project.content? before file).isSome = true ∧
              project.content? after file = none)) ∧
        (∀ file, file ∈ change.changed.files ∨ file ∈ change.deleted.files → file.Plain) ∧
        difference.isEmpty = change.isEmpty ∧
        (change.isEmpty = true ↔
          ∀ engine ∈ project.config.enabledEngines, ∀ file : SourcePath, file.Plain →
            (project.selection engine.1).selects file = true →
              project.content? before file = project.content? after file) ∧
        ∀ engine ∈ project.config.enabledEngines,
          (project.workerOf engine).Faithful [⟨Change.empty, before⟩, ⟨change, after⟩] := by
  have regular := regular_of_looksDown (isAbsolute_root_of_openProject opened given) down
  have namedBefore := watchableBefore.named
  have namedAfter := watchableAfter.named
  refine ⟨project.hashes before, project.hashes after,
    snapshot_of_explorable _ watchableBefore.explorable,
    snapshot_of_explorable _ watchableAfter.explorable,
    fun file plain => ⟨changed_edits regular differ plain, deleted_edits regular plain⟩,
    fun file => plain_of_edits regular namedBefore namedAfter,
    Bool.eq_iff_iff.mpr Difference.isEmpty_iff,
    isEmpty_edits regular differ namedBefore namedAfter, fun engine enabled => ?_⟩
  refine faithful_polls regular enabled before [after] ?_ (List.IsChain.cons_cons differ (.singleton _))
  intro tree member
  rcases List.mem_cons.mp member with rfl | last
  · exact watchableBefore
  · rw [List.mem_singleton.mp last]
    exact watchableAfter

end Project

/-! A project with an engine for its sources and one for its libraries, before and after edits. -/
namespace Edited

def configuration : String :=
  "[project]\nname = \"demo\"\n[engines.check]\n[engines.lint]\ninclude = \"lib\"\n"

/-- The project with the given files, by their directories, names and texts. -/
def files (given : List (String × String × String)) : FileTree :=
  ⟨[(["work"], .directory), (["work", "vigil.toml"], .file (Utf8.encode configuration)),
      (["work", "src"], .directory), (["work", "lib"], .directory),
      (["work", "docs"], .directory)] ++
    given.map fun (directory, name, text) =>
      (["work", directory, name], .file (Utf8.encode text))⟩

/-- One source will be altered and one removed; a library is to come. -/
def before : FileTree :=
  files [("src", "a.ts", "call("), ("src", "b.ts", "fine"), ("lib", "c.ts", "same"),
    ("docs", "d.ts", "old")]

def after : FileTree :=
  files [("src", "a.ts", "call()"), ("lib", "c.ts", "same"), ("lib", "e.ts", "new"),
    ("docs", "d.ts", "new")]

def project : Project :=
  { root := ⟨"/work"⟩
    configPath := ⟨"/work/vigil.toml"⟩
    config :=
      { project := ⟨"demo", ""⟩
        files := .standard
        watch := .standard
        engines :=
          ⟨some ⟨true, 1, none, none, [], [], 120⟩, some ⟨true, 1, some ["lib"], none, [], [], 120⟩⟩
        issues := .standard } }

theorem watchable_of_decided {tree : FileTree}
    (named : ∀ entry ∈ tree.nodes, ∀ name ∈ entry.1,
      component name.toList = some (.name name) ∧ '/' ∉ name.toList)
    (unlocked : ∀ entry ∈ tree.nodes, entry.2 ≠ .lockedDirectory)
    (read : ∀ engine ∈ project.config.enabledEngines,
      ∀ file ∈ (project.selection engine.1).inventory tree,
        (tree.read ((project.selection engine.1).root.join file)).toOption.isSome = true) :
    project.Watchable tree := by
  refine ⟨named, fun engine enabled => ⟨Selection.explorable_of_unlocked unlocked, ?_⟩⟩
  intro file discovered
  obtain ⟨content, present⟩ := Option.isSome_iff_exists.mp (read engine enabled file discovered)
  exact ⟨content, Analyzer.eq_ok_of_toOption present⟩

theorem watchable_before : project.Watchable before :=
  watchable_of_decided (by decide +kernel) (by decide +kernel) (by decide +kernel)

theorem watchable_after : project.Watchable after :=
  watchable_of_decided (by decide +kernel) (by decide +kernel) (by decide +kernel)

def contents (tree : FileTree) : List (List UInt8) :=
  tree.nodes.filterMap fun (_, node) =>
    match node with
    | .file content => some content
    | _ => none

theorem mem_contents {tree : FileTree} {file : SourcePath} {content : List UInt8}
    (present : project.content? tree file = some content) : content ∈ contents tree := by
  obtain ⟨place, _, node⟩ := FileTree.read_eq_ok (Analyzer.eq_ok_of_toOption present)
  unfold FileTree.find? at node
  split at node
  · cases node
  · obtain ⟨⟨found, held⟩, first, rfl⟩ := Option.map_eq_some_iff.mp node
    exact List.mem_filterMap.mpr ⟨_, List.mem_of_find?_eq_some first, rfl⟩

theorem hashesDiffer : project.HashesDiffer before after := by
  have told : ∀ old ∈ contents before, ∀ new ∈ contents after,
      Digest.ofBytes old = Digest.ofBytes new → old = new := by decide +kernel
  exact fun file old new past present => told old (mem_contents past) new (mem_contents present)

theorem looksDown : project.config.LooksDown := by
  unfold Config.LooksDown
  decide +kernel

end Edited

/-- One source is altered and one removed, and there is a new library; the documentation is
altered too, but nobody watches it. -/
theorem polled_change_of_edited :
    ∃ old new, Edited.project.snapshot Edited.before = .ok old ∧
      Edited.project.snapshot Edited.after = .ok new ∧
      let change := (Difference.between new old).toChange
      change.changed.files = [⟨"lib/e.ts"⟩, ⟨"src/a.ts"⟩] ∧
        change.deleted.files = [⟨"src/b.ts"⟩] ∧
        Edited.project.Watches ⟨"src/a.ts"⟩ ∧ ¬Edited.project.Watches ⟨"docs/d.ts"⟩ ∧
        ∀ engine ∈ Edited.project.config.enabledEngines,
          (Edited.project.workerOf engine).Faithful
            [⟨Change.empty, Edited.before⟩, ⟨change, Edited.after⟩] := by
  have opened : Commands.openProject ⟨false, false, .auto, none⟩ Edited.before ⟨"/work"⟩ =
      .ok Edited.project := by
    apply Analyzer.eq_ok_of_toOption
    decide +kernel
  obtain ⟨old, new, taken, takenAgain, named, plain, _, _, faithful⟩ :=
    Project.polled_change opened (by decide) Edited.looksDown Edited.watchable_before
      Edited.watchable_after Edited.hashesDiffer
  have same := Project.snapshot_of_explorable _ Edited.watchable_before.explorable
  have sameAgain := Project.snapshot_of_explorable _ Edited.watchable_after.explorable
  have first : old = Edited.project.hashes Edited.before := Except.ok.inj (taken.symm.trans same)
  have second : new = Edited.project.hashes Edited.after :=
    Except.ok.inj (takenAgain.symm.trans sameAgain)
  have changed : (Difference.between new old).toChange.changed.files =
      [⟨"lib/e.ts"⟩, ⟨"src/a.ts"⟩] := by
    rw [first, second]
    decide +kernel
  have deleted : (Difference.between new old).toChange.deleted.files = [⟨"src/b.ts"⟩] := by
    rw [first, second]
    decide +kernel
  have member : (⟨"src/a.ts"⟩ : SourcePath) ∈ (Difference.between new old).toChange.changed.files := by
    rw [changed]
    decide
  have altered := (named _ (plain _ (Or.inl member))).1.mp (PathSet.contains_of_mem member)
  refine ⟨old, new, taken, takenAgain, changed, deleted, altered.1, ?_, faithful⟩
  unfold Project.Watches
  decide +kernel

end Reanalysis
