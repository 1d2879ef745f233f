/-
Content hashes of a set of files, and what differs between two such snapshots.
-/

import Reanalysis.Change
import Reanalysis.Digest
import Reanalysis.FileTree

namespace Reanalysis

abbrev Snapshot := PathMap Digest

namespace Snapshot

def unreadable (path : SourcePath) (fault : FileFault) : String :=
  "cache I/O error at " ++ path.text ++ ": " ++ fault.message

/-- Hashes the files that can be read; the others are left out. -/
def ofFiles (tree : FileTree) (root : SourcePath) (files : List SourcePath) : Snapshot :=
  PathMap.ofList (files.filterMap fun file =>
    match tree.read (root.join file) with
    | .ok content => some (file, Digest.ofBytes content)
    | .error _ => none)

end Snapshot

/-- The files of two snapshots, told apart by what became of them. -/
structure Difference where
  added : List SourcePath
  modified : List SourcePath
  deleted : List SourcePath
  unchanged : List SourcePath
deriving DecidableEq, Repr

namespace Difference

def keysWhere (current : Snapshot) (test : SourcePath → Digest → Bool) :
    List SourcePath :=
  (current.filter test).keys

/-- What became of the files of `previous` in `current`. -/
def between (current previous : Snapshot) : Difference :=
  { added := keysWhere current (fun file _ => (previous.find? file).isNone)
    modified := keysWhere current
      (fun file digest => (previous.find? file).any (fun old => old ≠ digest))
    deleted := keysWhere previous (fun file _ => !current.contains file)
    unchanged := keysWhere current
      (fun file digest => (previous.find? file) = some digest) }

def isEmpty (difference : Difference) : Bool :=
  difference.added.isEmpty && difference.modified.isEmpty && difference.deleted.isEmpty

def dirtyCount (difference : Difference) : Nat :=
  difference.added.length + difference.modified.length

def toChange (difference : Difference) : Change :=
  Change.ofFiles (difference.added ++ difference.modified) difference.deleted

end Difference

end Reanalysis
