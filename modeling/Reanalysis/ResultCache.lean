/-
The last known result of each file. A result stays until its file is named as
changed or deleted.
-/

import Reanalysis.Change

namespace Reanalysis

structure ResultCache (α : Type) where
  results : PathMap α

namespace ResultCache

variable {α : Type}

def empty : ResultCache α := ⟨PathMap.empty⟩

def record (cache : ResultCache α) (file : SourcePath) (result : α) : ResultCache α :=
  ⟨cache.results.insert file result⟩

def invalidate (cache : ResultCache α) (change : Change) : ResultCache α :=
  ⟨(change.changed.files ++ change.deleted.files).foldl PathMap.erase cache.results⟩

def size (cache : ResultCache α) : Nat := cache.results.size

def dropped (cache : ResultCache α) (change : Change) : Nat :=
  cache.size - (cache.invalidate change).size

def get? (cache : ResultCache α) (file : SourcePath) : Option α := cache.results.find? file

def contains (cache : ResultCache α) (file : SourcePath) : Bool := cache.results.contains file

def files (cache : ResultCache α) : List SourcePath := cache.results.keys

def snapshot (cache : ResultCache α) : List α := cache.results.values

def isEmpty (cache : ResultCache α) : Bool := cache.results.isEmpty

end ResultCache

end Reanalysis
