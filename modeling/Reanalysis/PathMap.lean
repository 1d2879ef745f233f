/-
Maps and sets keyed by source paths. The entries stand in strictly ascending
file order, so a file has at most one entry whatever spellings it was given
under. The spelling that came first is kept.
-/

import Reanalysis.SourcePath

namespace Reanalysis

/-- The order of two entries is the order of their keys. -/
abbrev PathMap.Before {α : Type} (left right : SourcePath × α) : Prop :=
  left.1.precedes right.1

structure PathMap (α : Type) where
  entries : List (SourcePath × α)
  ascending : entries.Pairwise PathMap.Before

namespace PathMap

variable {α : Type}

/-- One pass over ascending entries: the entry of `key` is updated, or made in its place. -/
def place (key : SourcePath) (update : Option α → α) :
    List (SourcePath × α) → List (SourcePath × α)
  | [] => [(key, update none)]
  | (held, value) :: rest =>
      match compare key held with
      | .lt => (key, update none) :: (held, value) :: rest
      | .eq => (held, update (some value)) :: rest
      | .gt => (held, value) :: place key update rest

theorem mem_place {key : SourcePath} {update : Option α → α} {entry : SourcePath × α}
    {entries : List (SourcePath × α)} (member : entry ∈ place key update entries) :
    entry.1 = key ∨ ∃ value, (entry.1, value) ∈ entries := by
  induction entries with
  | nil =>
      simp only [place, List.mem_singleton] at member
      exact Or.inl (by rw [member])
  | cons head tail ih =>
      obtain ⟨held, value⟩ := head
      unfold place at member
      split at member
      · rcases List.mem_cons.mp member with fresh | old
        · exact Or.inl (by rw [fresh])
        · exact Or.inr ⟨entry.2, old⟩
      · rcases List.mem_cons.mp member with updated | old
        · exact Or.inr ⟨value, by rw [updated]; exact List.mem_cons_self⟩
        · exact Or.inr ⟨entry.2, List.mem_cons_of_mem _ old⟩
      · rcases List.mem_cons.mp member with kept | later
        · exact Or.inr ⟨value, by rw [kept]; exact List.mem_cons_self⟩
        · rcases ih later with same | ⟨other, present⟩
          · exact Or.inl same
          · exact Or.inr ⟨other, List.mem_cons_of_mem _ present⟩

theorem place_ascending (key : SourcePath) (update : Option α → α)
    {entries : List (SourcePath × α)} (ascending : entries.Pairwise Before) :
    (place key update entries).Pairwise Before := by
  induction entries with
  | nil => exact List.pairwise_singleton _ _
  | cons head tail ih =>
      obtain ⟨held, value⟩ := head
      obtain ⟨first, later⟩ := List.pairwise_cons.mp ascending
      unfold place
      split
      · rename_i below
        refine List.pairwise_cons.mpr ⟨?_, ascending⟩
        intro entry member
        rcases List.mem_cons.mp member with same | inTail
        · rw [same]; exact below
        · exact SourcePath.precedes_trans below (first entry inTail)
      · exact List.pairwise_cons.mpr ⟨fun entry member => first entry member, later⟩
      · rename_i above
        refine List.pairwise_cons.mpr ⟨?_, ih later⟩
        intro entry member
        rcases mem_place member with same | ⟨other, present⟩
        · change held.precedes entry.1
          rw [same]
          exact SourcePath.precedes_of_gt above
        · exact first (entry.1, other) present

theorem place_of_last {key : SourcePath} {update : Option α → α}
    {entries : List (SourcePath × α)} (last : ∀ entry ∈ entries, entry.1.precedes key) :
    place key update entries = entries ++ [(key, update none)] := by
  induction entries with
  | nil => rfl
  | cons head tail ih =>
      obtain ⟨held, value⟩ := head
      have above : compare key held = .gt :=
        Std.OrientedCmp.gt_iff_lt.mpr (last (held, value) List.mem_cons_self)
      unfold place
      rw [above, ih (fun entry member => last entry (List.mem_cons_of_mem _ member))]
      rfl

/-- Does to ascending entries what `place` does, but looks at the last entry first: keys often
come in their order. -/
def placeFromEnd (key : SourcePath) (update : Option α → α) (entries : List (SourcePath × α)) :
    List (SourcePath × α) :=
  match entries.getLast? with
  | none => [(key, update none)]
  | some last =>
      if compare key last.1 = .gt then entries ++ [(key, update none)]
      else place key update entries

theorem placeFromEnd_eq (key : SourcePath) (update : Option α → α)
    {entries : List (SourcePath × α)} (ascending : entries.Pairwise Before) :
    placeFromEnd key update entries = place key update entries := by
  unfold placeFromEnd
  split
  · rename_i empty
    rw [List.getLast?_eq_none_iff.mp empty]
    rfl
  · rename_i last found
    split
    · rename_i above
      obtain ⟨front, rfl⟩ := List.getLast?_eq_some_iff.mp found
      have lastBefore : last.1.precedes key := SourcePath.precedes_of_gt above
      symm
      apply place_of_last
      intro entry member
      rcases List.mem_append.mp member with inFront | isLast
      · have before := (List.pairwise_append.mp ascending).2.2 entry inFront last
          List.mem_cons_self
        exact SourcePath.precedes_trans before lastBefore
      · rw [List.mem_singleton.mp isLast]
        exact lastBefore
    · rfl

def empty : PathMap α := ⟨[], List.Pairwise.nil⟩

instance : Inhabited (PathMap α) := ⟨empty⟩

def upsert (map : PathMap α) (key : SourcePath) (update : Option α → α) : PathMap α :=
  ⟨placeFromEnd key update map.entries, by
    rw [placeFromEnd_eq key update map.ascending]
    exact place_ascending key update map.ascending⟩

theorem upsert_entries (map : PathMap α) (key : SourcePath) (update : Option α → α) :
    (map.upsert key update).entries = place key update map.entries :=
  placeFromEnd_eq key update map.ascending

/-- The new value takes the place of an old one; the old spelling of the key stays. -/
def insert (map : PathMap α) (key : SourcePath) (value : α) : PathMap α :=
  map.upsert key (fun _ => value)

def filter (map : PathMap α) (keep : SourcePath → α → Bool) : PathMap α :=
  ⟨map.entries.filter (fun entry => keep entry.1 entry.2), map.ascending.filter _⟩

def erase (map : PathMap α) (key : SourcePath) : PathMap α :=
  map.filter (fun held _ => !held.same key)

def find? (map : PathMap α) (key : SourcePath) : Option α :=
  (map.entries.find? (fun entry => entry.1.same key)).map Prod.snd

def contains (map : PathMap α) (key : SourcePath) : Bool := (map.find? key).isSome

def keys (map : PathMap α) : List SourcePath := map.entries.map Prod.fst

def values (map : PathMap α) : List α := map.entries.map Prod.snd

def size (map : PathMap α) : Nat := map.entries.length

def isEmpty (map : PathMap α) : Bool := map.entries.isEmpty

/-- The last of several entries for one file is kept, spelling and all. -/
def ofList (entries : List (SourcePath × α)) : PathMap α :=
  entries.foldr (fun entry map => map.upsert entry.1 (fun held => held.getD entry.2)) empty

end PathMap

/-- A set of files in ascending file order. -/
abbrev PathSet := PathMap Unit

namespace PathSet

/-- Adds files one by one; a file already in the set keeps its spelling. -/
def addAll (set : PathSet) (files : List SourcePath) : PathSet :=
  files.foldl (fun grown file => PathMap.insert grown file ()) set

def ofFiles (files : List SourcePath) : PathSet := addAll PathMap.empty files

def files (set : PathSet) : List SourcePath := PathMap.keys set

end PathSet

end Reanalysis
