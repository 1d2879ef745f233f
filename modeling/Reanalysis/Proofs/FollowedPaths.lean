/-
Following the text of a path through a tree. Names lead down through directories that are
open; steps that stand for nothing lead nowhere else; and two spellings with the same steps
lead to the same place, or one of them is refused on the way.
-/

import Reanalysis.FileTree
import Reanalysis.Proofs.WrittenPath

namespace Reanalysis

open SourcePath

namespace FileTree

variable {tree : FileTree} {start place : Place}

theorem isDirectoryAt_of_isOpenAt (opened : tree.isOpenAt place = true) :
    tree.isDirectoryAt place = true := by
  unfold isDirectoryAt
  rw [of_decide_eq_true opened]
  rfl

theorem find?_of_closed (inside : tree.isDirectoryAt place = true)
    (closed : tree.isOpenAt place = false) : tree.find? place = some .lockedDirectory := by
  unfold isDirectoryAt at inside
  unfold isOpenAt at closed
  obtain ⟨node, found, directory⟩ := (Option.any_eq_true _ _).mp inside
  rw [found] at closed ⊢
  cases node with
  | lockedDirectory => rfl
  | directory => cases closed
  | file content | lockedFile | special => cases directory

theorem enter_name {name : String} (step : IsStep (.name name)) {next : Place}
    (entered : tree.enter place name.toList = .ok next) :
    next = place ++ [name] ∧ tree.isOpenAt place = true ∧ (tree.find? next).isSome := by
  have read : component name.toList = some (.name name) := step.1
  unfold component at read
  unfold enter at entered
  split at read
  · cases read
  · rename_i ordinary
    rw [not_or] at ordinary
    split at read
    · cases read
    · rename_i upwards
      rw [if_neg ordinary.1, if_neg ordinary.2, if_neg upwards, String.ofList_toList] at entered
      split at entered
      · cases entered
      · split at entered
        · cases entered
        · rename_i opened
          dsimp only at entered
          split at entered
          · cases entered
          · split at entered
            · cases entered
            · rename_i stands
              cases entered
              exact ⟨rfl, by simpa using opened, Option.isSome_iff_ne_none.mpr (by simpa using stands)⟩

theorem walk_nothing (inside : tree.isDirectoryAt place = true) :
    ((ofComponents []).text.toList.splitOn '/').foldlM tree.enter place = .ok place := by
  have pieces : (ofComponents []).text.toList.splitOn '/' = [[]] := by decide
  have entered : tree.enter place [] = .ok place := by
    unfold enter
    rw [inside]
    rfl
  rw [pieces, List.foldlM_cons, entered]
  rfl

theorem walk_names {names : List String} (allSteps : ∀ name ∈ names, IsStep (.name name))
    (arrived : (names.map String.toList).foldlM tree.enter start = .ok place) :
    place = start ++ names ∧
      (names ≠ [] → tree.isOpenAt start = true ∧ (tree.find? place).isSome) := by
  induction names generalizing start with
  | nil =>
      cases arrived
      exact ⟨(List.append_nil _).symm, fun nonempty => absurd rfl nonempty⟩
  | cons name rest ih =>
      rw [List.map_cons, List.foldlM_cons] at arrived
      cases entered : tree.enter start name.toList with
      | error fault => rw [entered] at arrived; cases arrived
      | ok next =>
          rw [entered] at arrived
          obtain ⟨here, opened, stands⟩ := enter_name (allSteps name List.mem_cons_self) entered
          obtain ⟨there, more⟩ :=
            ih (fun other member => allSteps other (List.mem_cons_of_mem _ member)) arrived
          refine ⟨by rw [there, here, List.append_assoc]; rfl, fun _ => ⟨opened, ?_⟩⟩
          by_cases last : rest = []
          · rw [there, last, List.append_nil]
            exact stands
          · exact (more last).2

theorem resolve_eq (tree : FileTree) (path : SourcePath) :
    tree.resolve path =
      if path.text.toList.contains (Char.ofNat 0) then .error .holdsNul
      else if path.text.toList = [] then .error .notFound
      else if pathLimit ≤ path.text.utf8ByteSize then .error .nameTooLong
      else (path.text.toList.splitOn '/').foldlM tree.enter [] := by
  unfold resolve
  dsimp only
  rw [Text.pieces_eq_splitOn]

theorem follow_of_resolve {path : SourcePath} {place : Place}
    (found : tree.resolve path = .ok place) :
    (path.text.toList.splitOn '/').foldlM tree.enter [] = .ok place := by
  rw [resolve_eq] at found
  split at found
  · cases found
  · split at found
    · cases found
    · split at found
      · cases found
      · exact found

theorem size_of_resolve {path : SourcePath} {place : Place}
    (found : tree.resolve path = .ok place) : path.text.utf8ByteSize < pathLimit := by
  rw [resolve_eq] at found
  split at found
  · cases found
  · split at found
    · cases found
    · split at found
      · cases found
      · exact Nat.lt_of_not_le ‹_›

theorem resolve_front {path front : SourcePath} {place : Place} {tail : String}
    (found : tree.resolve path = .ok place) (extended : path.text = front.text ++ tail)
    (nonempty : front.text.toList ≠ []) :
    tree.resolve front = (front.text.toList.splitOn '/').foldlM tree.enter [] := by
  rw [resolve_eq, extended] at found
  split at found
  · cases found
  · rename_i clear
    split at found
    · cases found
    · split at found
      · cases found
      · rename_i short
        have clearFront : ¬(front.text.toList.contains (Char.ofNat 0) = true) := by
          intro holds
          apply clear
          rw [String.toList_append, List.contains_iff_mem, List.mem_append]
          exact Or.inl (List.contains_iff_mem.mp holds)
        have shortFront : ¬(pathLimit ≤ front.text.utf8ByteSize) := by
          rw [String.utf8ByteSize_append] at short
          omega
        rw [resolve_eq, if_neg clearFront, if_neg nonempty, if_neg shortFront]

theorem read_of_fault {path : SourcePath} {fault : FileFault}
    (failed : tree.resolve path = .error fault) : tree.read path = .error fault := by
  unfold FileTree.read
  rw [failed]
  rfl

theorem read_of_file {path : SourcePath} {place : Place} {bytes : List UInt8}
    (resolved : tree.resolve path = .ok place) (node : tree.find? place = some (.file bytes)) :
    tree.read path = .ok bytes := by
  unfold FileTree.read
  rw [resolved]
  dsimp only [bind, Except.bind]
  rw [node]

theorem read_eq_ok {path : SourcePath} {bytes : List UInt8} (read : tree.read path = .ok bytes) :
    ∃ place, tree.resolve path = .ok place ∧ tree.find? place = some (.file bytes) := by
  unfold FileTree.read at read
  cases found : tree.resolve path with
  | error fault => rw [found] at read; cases read
  | ok place =>
      rw [found] at read
      refine ⟨place, rfl, ?_⟩
      dsimp only [bind, Except.bind] at read
      cases node : tree.find? place with
      | none => rw [node] at read; cases read
      | some kind =>
          rw [node] at read
          cases kind with
          | file content => cases read; rfl
          | directory | lockedFile | lockedDirectory | special => cases read

theorem isDirectoryAt_of_directoryAt? {path : SourcePath}
    (directory : tree.directoryAt? path = some place) :
    tree.isDirectoryAt place = true ∧ tree.resolve path = .ok place := by
  unfold directoryAt? at directory
  split at directory
  · split at directory
    · cases directory
      exact ⟨‹_›, ‹_›⟩
    · cases directory
  · cases directory

theorem mem_nodes_of_find? {node : Node} (below : place ≠ [])
    (found : tree.find? place = some node) : (place, node) ∈ tree.nodes := by
  unfold find? at found
  rw [if_neg below] at found
  obtain ⟨entry, atEntry, atNode⟩ := Option.map_eq_some_iff.mp found
  have here : entry.1 = place := by simpa using List.find?_some atEntry
  rw [← here, ← atNode]
  exact List.mem_of_find?_eq_some atEntry

theorem read_of_isFile (unlocked : ∀ entry ∈ tree.nodes, entry.2 ≠ .lockedFile)
    {path : SourcePath} (isFile : tree.isFile path = true) :
    ∃ bytes, tree.read path = .ok bytes := by
  unfold FileTree.isFile nodeAt? at isFile
  cases leads : tree.resolve path with
  | error fault => rw [leads] at isFile; cases isFile
  | ok place =>
      rw [leads] at isFile
      obtain ⟨node, stands, kind⟩ := (Option.any_eq_true _ _).mp isFile
      cases node with
      | file content => exact ⟨content, read_of_file leads stands⟩
      | lockedFile =>
          have below : place ≠ [] := by
            rintro rfl
            cases stands
          exact absurd rfl (unlocked _ (mem_nodes_of_find? below stands))
      | directory | lockedDirectory | special => cases kind

theorem mem_entries {name : String} (stands : (tree.find? (place ++ [name])).isSome) :
    name ∈ tree.entries place := by
  obtain ⟨node, found⟩ := Option.isSome_iff_exists.mp stands
  have listed := mem_nodes_of_find? (by simp) found
  refine List.mem_filterMap.mpr ⟨_, listed, ?_⟩
  dsimp only
  rw [List.dropLast_concat, if_pos rfl, List.getLast?_concat]

/-! ### Other spellings -/

def isSignificant (piece : List Char) : Bool := piece ≠ [] && piece ≠ ['.']

theorem filter_isSignificant (pieces : List (List Char)) :
    pieces.filter isSignificant = (pieces.filterMap component).map (·.text.toList) := by
  induction pieces with
  | nil => rfl
  | cons piece rest ih =>
      cases read : component piece with
      | none =>
          have idle : isSignificant piece = false := by
            unfold component at read
            split at read
            · rename_i idle
              rcases idle with rfl | rfl <;> rfl
            · split at read <;> cases read
          rw [List.filter_cons_of_neg (by rw [idle]; exact Bool.false_ne_true),
            List.filterMap_cons_none read, ih]
      | some part =>
          have step : isSignificant piece = true ∧ part.text.toList = piece := by
            unfold component at read
            split at read
            · cases read
            · rename_i ordinary
              rw [not_or] at ordinary
              refine ⟨by simp [isSignificant, ordinary], ?_⟩
              split at read
              · rename_i upwards
                cases read
                rw [upwards]
                rfl
              · cases read
                exact String.toList_ofList
          rw [List.filter_cons_of_pos step.1, List.filterMap_cons_some read, List.map_cons, ih,
            step.2]

theorem enter_nothing (tree : FileTree) (place : Place) :
    tree.enter place [] = if tree.isDirectoryAt place then .ok place else .error .notADirectory := by
  unfold enter
  cases tree.isDirectoryAt place <;> rfl

theorem enter_idle (tree : FileTree) (place : Place) {piece : List Char}
    (idle : isSignificant piece = false) :
    tree.enter place piece = .ok place ∨
      ∃ fault, tree.enter place piece = .error fault ∧ fault ≠ .notFound := by
  have empty : piece = [] ∨ piece = ['.'] := by
    unfold isSignificant at idle
    rw [Bool.and_eq_false_iff] at idle
    rcases idle with nothing | here
    · exact Or.inl (by simpa using nothing)
    · exact Or.inr (by simpa using here)
  rcases empty with rfl | rfl
  · rw [enter_nothing]
    cases tree.isDirectoryAt place with
    | true => exact Or.inl rfl
    | false => exact Or.inr ⟨_, rfl, by decide⟩
  · unfold enter
    cases tree.isDirectoryAt place with
    | false => exact Or.inr ⟨_, rfl, by decide⟩
    | true =>
        cases tree.isOpenAt place with
        | true => exact Or.inl rfl
        | false => exact Or.inr ⟨_, rfl, by decide⟩

theorem walk_steps {pieces : List (List Char)}
    (arrived : pieces.foldlM tree.enter start = .ok place) :
    (pieces.filter isSignificant).foldlM tree.enter start = .ok place := by
  induction pieces generalizing start with
  | nil => exact arrived
  | cons piece rest ih =>
      rw [List.foldlM_cons] at arrived
      cases step : isSignificant piece with
      | false =>
          rw [List.filter_cons_of_neg (by rw [step]; exact Bool.false_ne_true)]
          rcases enter_idle tree start step with stays | ⟨fault, refused, _present⟩
          · rw [stays] at arrived
            exact ih arrived
          · rw [refused] at arrived
            cases arrived
      | true =>
          rw [List.filter_cons_of_pos step, List.foldlM_cons]
          cases entered : tree.enter start piece with
          | error fault => rw [entered] at arrived; cases arrived
          | ok next =>
              rw [entered] at arrived
              exact ih arrived

theorem walk_of_steps {pieces : List (List Char)}
    (arrived : (pieces.filter isSignificant).foldlM tree.enter start = .ok place) :
    pieces.foldlM tree.enter start = .ok place ∨
      ∃ fault, pieces.foldlM tree.enter start = .error fault ∧ fault ≠ .notFound := by
  induction pieces generalizing start with
  | nil => exact Or.inl arrived
  | cons piece rest ih =>
      rw [List.foldlM_cons]
      cases step : isSignificant piece with
      | false =>
          rw [List.filter_cons_of_neg (by rw [step]; exact Bool.false_ne_true)] at arrived
          rcases enter_idle tree start step with stays | ⟨fault, refused, present⟩
          · rw [stays]
            exact ih arrived
          · rw [refused]
            exact Or.inr ⟨fault, rfl, present⟩
      | true =>
          rw [List.filter_cons_of_pos step, List.foldlM_cons] at arrived
          cases entered : tree.enter start piece with
          | error fault => rw [entered] at arrived; cases arrived
          | ok next =>
              rw [entered] at arrived
              exact ih arrived

theorem read_of_steps {path other : SourcePath} {bytes : List UInt8}
    (alike : steps path.text.toList = steps other.text.toList)
    (read : tree.read path = .ok bytes) :
    tree.read other = .ok bytes ∨ ∃ fault, tree.read other = .error fault ∧ fault ≠ .notFound := by
  obtain ⟨place, resolved, node⟩ := read_eq_ok read
  have stepwise := walk_steps (follow_of_resolve resolved)
  have sameSteps : (path.text.toList.splitOn '/').filter isSignificant =
      (other.text.toList.splitOn '/').filter isSignificant := by
    rw [filter_isSignificant, filter_isSignificant]
    exact congrArg (List.map (·.text.toList)) alike
  rw [sameSteps] at stepwise
  have nonempty : other.text.toList ≠ [] := by
    intro empty
    rw [empty] at stepwise
    cases stepwise
    cases node
  have outcome : tree.resolve other = .ok place ∨
      ∃ fault, tree.resolve other = .error fault ∧ fault ≠ .notFound := by
    rw [resolve_eq, if_neg nonempty]
    split
    · exact Or.inr ⟨.holdsNul, rfl, by decide⟩
    · split
      · exact Or.inr ⟨.nameTooLong, rfl, by decide⟩
      · exact walk_of_steps stepwise
  rcases outcome with arrives | ⟨fault, blocked, present⟩
  · exact Or.inl (read_of_file arrives node)
  · exact Or.inr ⟨fault, read_of_fault blocked, present⟩

/-- Under another spelling the same file is read, or reading fails for a reason other than that
nothing is there. -/
theorem read_of_same {root path other : SourcePath} {bytes : List UInt8}
    (alike : path.same other = true) (read : tree.read (root.join path) = .ok bytes) :
    tree.read (root.join other) = .ok bytes ∨
      ∃ fault, tree.read (root.join other) = .error fault ∧ fault ≠ .notFound :=
  read_of_steps (steps_join_of_same alike) read

end FileTree

end Reanalysis
