/-
Batches of changed and deleted files, and the buffer that collects them until
they are used. A file that is both changed and deleted in one buffer counts as
deleted.
-/

import Reanalysis.PathMap

namespace Reanalysis

structure Change where
  changed : PathSet
  deleted : PathSet

namespace Change

def empty : Change := ⟨PathMap.empty, PathMap.empty⟩

instance : Inhabited Change := ⟨empty⟩

def deletionWins (change : Change) : Change :=
  { change with changed := change.changed.filter (fun file _ => !change.deleted.contains file) }

def withChanged (change : Change) (files : List SourcePath) : Change :=
  { change with changed := change.changed.addAll files }.deletionWins

def withDeleted (change : Change) (files : List SourcePath) : Change :=
  { change with deleted := change.deleted.addAll files }.deletionWins

def ofFiles (changed deleted : List SourcePath) : Change :=
  (empty.withChanged changed).withDeleted deleted

def isEmpty (change : Change) : Bool := change.changed.isEmpty && change.deleted.isEmpty

def touches (change : Change) (file : SourcePath) : Bool :=
  change.changed.contains file || change.deleted.contains file

/-- The union of both sets, with deletion winning afterwards. -/
def merge (change other : Change) : Change :=
  { changed := change.changed.addAll other.changed.files
    deleted := change.deleted.addAll other.deleted.files : Change }.deletionWins

end Change

structure PendingChanges where
  pending : Change

namespace PendingChanges

def empty : PendingChanges := ⟨Change.empty⟩

def accumulate (buffer : PendingChanges) (change : Change) : PendingChanges :=
  ⟨buffer.pending.merge change⟩

def drain (buffer : PendingChanges) : Change × PendingChanges :=
  (buffer.pending, empty)

def isEmpty (buffer : PendingChanges) : Bool := buffer.pending.isEmpty

end PendingChanges

end Reanalysis
