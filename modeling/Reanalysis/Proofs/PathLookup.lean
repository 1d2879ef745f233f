/-
Looking up files. Whether two paths are the same is settled by their components, and
a map is settled by its lookups: maps that answer alike for every path hold the same
values in the same order, however their keys are spelled.
-/

import Reanalysis.ResultCache

namespace Reanalysis

theorem Component.key_injective {left right : Component} (equal : left.key = right.key) :
    left = right := by
  cases left <;> cases right <;> simp_all [Component.key]

theorem Component.eq_of_compare {left right : Component} (equal : compare left right = .eq) :
    left = right := by
  apply Component.key_injective
  change (compareOn Prod.fst left.key right.key).then
    (compareOn Prod.snd left.key right.key) = .eq at equal
  obtain ⟨kinds, names⟩ := Ordering.then_eq_eq.mp equal
  exact Prod.ext (Std.LawfulEqOrd.eq_of_compare kinds) (Std.LawfulEqOrd.eq_of_compare names)

instance : Std.LawfulEqOrd Component where
  compare_self := Std.ReflCmp.compare_self
  eq_of_compare := Component.eq_of_compare

namespace SourcePath

variable {first second third : SourcePath}

theorem same_iff : first.same second = true ↔ first.components = second.components := by
  unfold same
  rw [decide_eq_true_iff]
  change compare first.components second.components = .eq ↔ _
  exact Std.LawfulEqOrd.compare_eq_iff_eq

@[simp] theorem same_refl (path : SourcePath) : path.same path = true := same_iff.mpr rfl

theorem same_symm (alike : first.same second = true) : second.same first = true :=
  same_iff.mpr (same_iff.mp alike).symm

theorem same_comm (first second : SourcePath) : first.same second = second.same first :=
  Bool.eq_iff_iff.mpr ⟨same_symm, same_symm⟩

theorem same_trans (left : first.same second = true) (right : second.same third = true) :
    first.same third = true :=
  same_iff.mpr ((same_iff.mp left).trans (same_iff.mp right))

theorem same_congr_left (alike : first.same second = true) (other : SourcePath) :
    first.same other = second.same other := by
  rw [Bool.eq_iff_iff, same_iff, same_iff, same_iff.mp alike]

theorem same_congr_right (alike : first.same second = true) (other : SourcePath) :
    other.same first = other.same second := by
  rw [Bool.eq_iff_iff, same_iff, same_iff, same_iff.mp alike]

theorem not_same_of_precedes (before : first.precedes second) : first.same second = false := by
  unfold precedes at before
  unfold same
  rw [before]
  rfl

theorem not_same_of_follows (after : second.precedes first) : first.same second = false := by
  rw [Bool.eq_false_iff]
  intro alike
  have backwards := same_symm alike
  rw [not_same_of_precedes after] at backwards
  cases backwards

end SourcePath

namespace PathMap

variable {α : Type}

/-- What a list of entries holds for a file: the first entry under one of its spellings. -/
def lookup (entries : List (SourcePath × α)) (key : SourcePath) : Option α :=
  (entries.find? (fun entry => entry.1.same key)).map Prod.snd

theorem find?_eq_lookup (map : PathMap α) (key : SourcePath) :
    map.find? key = lookup map.entries key := rfl

theorem lookup_cons (held key : SourcePath) (value : α) (rest : List (SourcePath × α)) :
    lookup ((held, value) :: rest) key =
      if held.same key then some value else lookup rest key := by
  unfold lookup
  cases alike : held.same key <;> simp [List.find?, alike]

theorem lookup_congr (entries : List (SourcePath × α)) {key other : SourcePath}
    (alike : key.same other = true) : lookup entries key = lookup entries other := by
  unfold lookup
  have equal : (fun entry : SourcePath × α => entry.1.same key) =
      fun entry => entry.1.same other := by
    funext entry
    exact SourcePath.same_congr_right alike entry.1
  rw [equal]

theorem lookup_eq_none_iff {entries : List (SourcePath × α)} {key : SourcePath} :
    lookup entries key = none ↔ ∀ entry ∈ entries, entry.1.same key = false := by
  simp [lookup]

theorem precedes_all {key held : SourcePath} {value : α} {rest : List (SourcePath × α)}
    (before : key.precedes held) (ascending : ((held, value) :: rest).Pairwise Before) :
    ∀ entry ∈ (held, value) :: rest, key.precedes entry.1 := by
  intro entry member
  rcases List.mem_cons.mp member with here | inTail
  · rw [here]; exact before
  · exact SourcePath.precedes_trans before ((List.pairwise_cons.mp ascending).1 entry inTail)

theorem lookup_eq_none_of_first {entries : List (SourcePath × α)} {key : SourcePath}
    (first : ∀ entry ∈ entries, key.precedes entry.1) : lookup entries key = none :=
  lookup_eq_none_iff.mpr
    (fun entry member => SourcePath.not_same_of_follows (first entry member))

theorem exists_of_lookup {entries : List (SourcePath × α)} {key : SourcePath} {value : α}
    (found : lookup entries key = some value) :
    ∃ held, (held, value) ∈ entries ∧ held.same key = true := by
  unfold lookup at found
  obtain ⟨entry, atEntry, rfl⟩ := Option.map_eq_some_iff.mp found
  have alike := List.find?_some atEntry
  exact ⟨entry.1, List.mem_of_find?_eq_some atEntry, alike⟩

theorem lookup_of_mem {entries : List (SourcePath × α)} (ascending : entries.Pairwise Before)
    {held : SourcePath} {value : α} (member : (held, value) ∈ entries) :
    lookup entries held = some value := by
  induction entries with
  | nil => cases member
  | cons head tail ih =>
      obtain ⟨front, kept⟩ := head
      obtain ⟨first, later⟩ := List.pairwise_cons.mp ascending
      rw [lookup_cons]
      rcases List.mem_cons.mp member with here | inTail
      · cases here
        rw [SourcePath.same_refl, if_pos rfl]
      · rw [SourcePath.not_same_of_precedes (first (held, value) inTail)]
        exact ih later inTail

theorem lookup_place (key : SourcePath) (update : Option α → α) (other : SourcePath)
    {entries : List (SourcePath × α)} (ascending : entries.Pairwise Before) :
    lookup (place key update entries) other =
      if key.same other then some (update (lookup entries key)) else lookup entries other := by
  induction entries with
  | nil => exact lookup_cons key other (update none) []
  | cons head tail ih =>
      obtain ⟨held, value⟩ := head
      have later := (List.pairwise_cons.mp ascending).2
      unfold place
      split
      · rename_i below
        have absent : lookup ((held, value) :: tail) key = none :=
          lookup_eq_none_of_first (precedes_all below ascending)
        rw [lookup_cons, absent]
      · rename_i equal
        have alike : key.same held = true := decide_eq_true equal
        rw [lookup_cons, lookup_cons, lookup_cons, SourcePath.same_symm alike, if_pos rfl,
          SourcePath.same_congr_left alike]
        split <;> rfl
      · rename_i above
        have apart : held.same key = false :=
          SourcePath.not_same_of_precedes (SourcePath.precedes_of_gt above)
        rw [lookup_cons, lookup_cons, lookup_cons, apart, ih later, if_neg Bool.false_ne_true]
        cases atHeld : held.same other with
        | false => simp only [Bool.false_eq_true, if_false]
        | true =>
            have elsewhere : key.same other = false := by
              rw [← SourcePath.same_congr_right atHeld key]
              exact SourcePath.not_same_of_follows (SourcePath.precedes_of_gt above)
            rw [elsewhere]
            rfl

/-! ### Lookups in a map -/

theorem find?_congr (map : PathMap α) {key other : SourcePath} (alike : key.same other = true) :
    map.find? key = map.find? other :=
  lookup_congr map.entries alike

theorem find?_of_mem (map : PathMap α) {held : SourcePath} {value : α}
    (member : (held, value) ∈ map.entries) : map.find? held = some value :=
  lookup_of_mem map.ascending member

theorem find?_upsert (map : PathMap α) (key : SourcePath) (update : Option α → α)
    (other : SourcePath) :
    (map.upsert key update).find? other =
      if key.same other then some (update (map.find? key)) else map.find? other := by
  rw [find?_eq_lookup, upsert_entries]
  exact lookup_place key update other map.ascending

theorem find?_insert (map : PathMap α) (key : SourcePath) (value : α) (other : SourcePath) :
    (map.insert key value).find? other =
      if key.same other then some value else map.find? other :=
  find?_upsert map key (fun _ => value) other

/-- A test that does not look at the spelling of a key keeps or drops a file as a whole. -/
theorem find?_filter (map : PathMap α) (keep : SourcePath → Bool)
    (respects : ∀ left right : SourcePath, left.same right = true → keep left = keep right)
    (key : SourcePath) :
    (map.filter (fun held _ => keep held)).find? key =
      if keep key then map.find? key else none := by
  cases found : lookup map.entries key with
  | none =>
      have absent : lookup (map.entries.filter (fun entry => keep entry.1)) key = none := by
        rw [lookup_eq_none_iff] at found ⊢
        exact fun entry member => found entry (List.mem_filter.mp member).1
      change lookup _ key = if keep key then lookup map.entries key else none
      rw [found, ite_self]
      exact absent
  | some value =>
      obtain ⟨held, member, alike⟩ := exists_of_lookup found
      change lookup (map.entries.filter (fun entry => keep entry.1)) key =
        if keep key then lookup map.entries key else none
      rw [← respects held key alike]
      cases kept : keep held with
      | true =>
          have inFiltered : (held, value) ∈ map.entries.filter (fun entry => keep entry.1) :=
            List.mem_filter.mpr ⟨member, kept⟩
          rw [if_pos rfl, found, ← lookup_congr _ alike]
          exact lookup_of_mem (map.ascending.filter _) inFiltered
      | false =>
          rw [if_neg Bool.false_ne_true, lookup_eq_none_iff]
          intro entry inFiltered
          obtain ⟨_present, keptEntry⟩ := List.mem_filter.mp inFiltered
          rw [Bool.eq_false_iff]
          intro sameEntry
          have dropped : keep entry.1 = false := by
            rw [respects entry.1 held (SourcePath.same_trans sameEntry
              (SourcePath.same_symm alike)), kept]
          rw [dropped] at keptEntry
          cases keptEntry

theorem find?_erase (map : PathMap α) (key other : SourcePath) :
    (map.erase key).find? other = if key.same other then none else map.find? other := by
  have respects : ∀ left right : SourcePath, left.same right = true →
      (!left.same key) = !right.same key :=
    fun left right alike => by rw [SourcePath.same_congr_left alike]
  refine (find?_filter map (fun held => !held.same key) respects other).trans ?_
  rw [SourcePath.same_comm other key]
  cases key.same other <;> rfl

theorem find?_eraseAll (keys : List SourcePath) (map : PathMap α) (other : SourcePath) :
    (keys.foldl erase map).find? other =
      if keys.any (fun key => key.same other) then none else map.find? other := by
  induction keys generalizing map with
  | nil => rfl
  | cons key rest ih =>
      rw [List.foldl_cons, ih, find?_erase, List.any_cons]
      cases key.same other <;> simp

theorem ascending_keys (map : PathMap α) : map.keys.Pairwise SourcePath.precedes :=
  List.pairwise_map.mpr map.ascending

theorem keys_apart (map : PathMap α) :
    map.keys.Pairwise (fun first second => first.same second = false) :=
  map.ascending_keys.imp SourcePath.not_same_of_precedes

theorem contains_iff_mem_keys {map : PathMap α} {key : SourcePath} :
    map.contains key = true ↔ ∃ held ∈ map.keys, held.same key = true := by
  unfold contains
  rw [Option.isSome_iff_exists]
  constructor
  · intro ⟨value, found⟩
    obtain ⟨held, member, alike⟩ := exists_of_lookup found
    exact ⟨held, List.mem_map_of_mem member, alike⟩
  · intro ⟨held, member, alike⟩
    obtain ⟨entry, present, rfl⟩ := List.mem_map.mp member
    exact ⟨entry.2, (find?_congr map alike).symm.trans (find?_of_mem map present)⟩

private theorem lookup_tail {held : SourcePath} {value : α} {rest : List (SourcePath × α)}
    (ascending : ((held, value) :: rest).Pairwise Before) (key : SourcePath) :
    lookup rest key = if held.same key then none else lookup ((held, value) :: rest) key := by
  rw [lookup_cons]
  cases alike : held.same key with
  | false => rfl
  | true =>
      rw [if_pos rfl, ← lookup_congr rest alike]
      exact lookup_eq_none_of_first (List.pairwise_cons.mp ascending).1

def partOf {β : Type} (part : α → List β) (entries : List (SourcePath × α))
    (key : SourcePath) : List β :=
  (lookup entries key).elim [] part

private theorem partOf_head {β : Type} {part : α → List β} {held : SourcePath} {value : α}
    {rest other : List (SourcePath × α)} (ascending : ((held, value) :: rest).Pairwise Before)
    (first : ∀ entry ∈ other, held.precedes entry.1)
    (agree : ∀ key, partOf part ((held, value) :: rest) key = partOf part other key) :
    part value = [] ∧ ∀ key, partOf part rest key = partOf part other key := by
  have absent : lookup other held = none := lookup_eq_none_of_first first
  constructor
  · have atHead := agree held
    simpa [partOf, lookup_cons, absent] using atHead
  · intro key
    unfold partOf
    rw [lookup_tail ascending]
    cases alike : held.same key with
    | false => exact agree key
    | true => rw [← lookup_congr other alike, absent, if_pos rfl]

theorem flatMap_eq_of_partOf {β : Type} (part : α → List β) {left right : List (SourcePath × α)}
    (leftAscending : left.Pairwise Before) (rightAscending : right.Pairwise Before)
    (agree : ∀ key, partOf part left key = partOf part right key) :
    left.flatMap (fun entry => part entry.2) = right.flatMap (fun entry => part entry.2) := by
  have empty_of_none (entries : List (SourcePath × α)) (ascending : entries.Pairwise Before)
      (none : ∀ key, partOf part entries key = []) :
      entries.flatMap (fun entry => part entry.2) = [] := by
    rw [List.flatMap_eq_nil_iff]
    intro entry member
    have atEntry := none entry.1
    have held : lookup entries entry.1 = some entry.2 := lookup_of_mem ascending member
    unfold partOf at atEntry
    rw [held] at atEntry
    exact atEntry
  -- Of two heads the one that comes first has an empty part and is dropped; heads under one
  -- key have equal parts and are dropped together.
  induction left generalizing right with
  | nil => exact (empty_of_none right rightAscending (fun key => (agree key).symm)).symm
  | cons leftHead leftTail leftIh =>
      obtain ⟨leftKey, leftValue⟩ := leftHead
      have leftLater := (List.pairwise_cons.mp leftAscending).2
      induction right with
      | nil => exact empty_of_none _ leftAscending agree
      | cons rightHead rightTail rightIh =>
          obtain ⟨rightKey, rightValue⟩ := rightHead
          have rightLater := (List.pairwise_cons.mp rightAscending).2
          cases order : compare leftKey rightKey with
          | lt =>
              obtain ⟨nothing, agreeLater⟩ :=
                partOf_head leftAscending (precedes_all order rightAscending) agree
              rw [List.flatMap_cons, nothing, List.nil_append]
              exact leftIh leftLater rightAscending agreeLater
          | eq =>
              have alike : leftKey.same rightKey = true := decide_eq_true order
              have equal : part leftValue = part rightValue := by
                have atHead := agree leftKey
                simpa [partOf, lookup_cons, SourcePath.same_symm alike] using atHead
              rw [List.flatMap_cons, List.flatMap_cons, equal]
              congr 1
              apply leftIh leftLater rightLater
              intro key
              unfold partOf
              rw [lookup_tail leftAscending, lookup_tail rightAscending,
                SourcePath.same_congr_left alike]
              cases rightKey.same key with
              | false => exact agree key
              | true => rfl
          | gt =>
              have after := precedes_all (SourcePath.precedes_of_gt order) leftAscending
              obtain ⟨nothing, agreeLater⟩ :=
                partOf_head rightAscending after (fun key => (agree key).symm)
              rw [List.flatMap_cons (x := (rightKey, rightValue)), nothing, List.nil_append]
              exact rightIh rightLater (fun key => (agreeLater key).symm)

end PathMap

namespace PathSet

theorem contains_congr (set : PathSet) {key other : SourcePath}
    (alike : key.same other = true) : set.contains key = set.contains other := by
  unfold PathMap.contains
  rw [PathMap.find?_congr set alike]

theorem contains_iff (set : PathSet) (key : SourcePath) :
    set.contains key = true ↔ ∃ file ∈ set.files, file.same key = true :=
  PathMap.contains_iff_mem_keys

theorem contains_of_mem {set : PathSet} {file : SourcePath} (member : file ∈ set.files) :
    set.contains file = true :=
  (contains_iff set file).mpr ⟨file, member, SourcePath.same_refl file⟩

theorem contains_insert (set : PathSet) (file key : SourcePath) :
    (PathMap.insert set file ()).contains key = (file.same key || set.contains key) := by
  unfold PathMap.contains
  rw [PathMap.find?_insert]
  cases file.same key <;> rfl

theorem contains_addAll (set : PathSet) (files : List SourcePath) (key : SourcePath) :
    (set.addAll files).contains key = (set.contains key || files.any (·.same key)) := by
  unfold addAll
  induction files generalizing set with
  | nil => rw [List.foldl_nil, List.any_nil, Bool.or_false]
  | cons file rest ih =>
      rw [List.foldl_cons, ih, contains_insert, List.any_cons, Bool.or_comm (file.same key),
        Bool.or_assoc]

theorem any_same_files (set : PathSet) (key : SourcePath) :
    set.files.any (·.same key) = set.contains key := by
  rw [Bool.eq_iff_iff, contains_iff, List.any_eq_true]

theorem mem_files_addAll {set : PathSet} {files : List SourcePath} {file : SourcePath}
    (member : file ∈ (set.addAll files).files) : file ∈ set.files ∨ file ∈ files := by
  unfold addAll at member
  induction files generalizing set with
  | nil => exact Or.inl member
  | cons head tail ih =>
      rw [List.foldl_cons] at member
      rcases ih member with before | later
      · obtain ⟨entry, present, rfl⟩ := List.mem_map.mp before
        rw [PathMap.insert, PathMap.upsert_entries] at present
        rcases PathMap.mem_place present with fresh | ⟨value, old⟩
        · exact Or.inr (by rw [fresh]; exact List.mem_cons_self)
        · exact Or.inl (List.mem_map_of_mem old)
      · exact Or.inr (List.mem_cons_of_mem _ later)

theorem contains_filter (set : PathSet) (keep : SourcePath → Bool)
    (respects : ∀ left right : SourcePath, left.same right = true → keep left = keep right)
    (key : SourcePath) :
    (PathMap.filter set (fun file _ => keep file)).contains key =
      (set.contains key && keep key) := by
  unfold PathMap.contains
  rw [PathMap.find?_filter set keep respects]
  cases keep key <;> simp

theorem mem_files_filter {set : PathSet} {keep : SourcePath → Unit → Bool} {file : SourcePath}
    (member : file ∈ files (PathMap.filter set keep)) : file ∈ set.files := by
  obtain ⟨entry, present, rfl⟩ := List.mem_map.mp member
  exact List.mem_map_of_mem (List.mem_filter.mp present).1

theorem files_apart (set : PathSet) :
    set.files.Pairwise (fun first second => first.same second = false) :=
  PathMap.keys_apart set

end PathSet

end Reanalysis
