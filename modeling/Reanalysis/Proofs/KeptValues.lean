/-
What becomes of the fields of an object on its way: they may be put in order, but each key
keeps its value. A record finds its fields by their names, so it reads the same either way.
-/

import Reanalysis.Json.Fields

namespace Reanalysis.Json

abbrev keys (fields : List (String × Json)) : List String := fields.map Prod.fst

theorem lookup_cons (name key : String) (value : Json) (rest : List (String × Json)) :
    ((key, value) :: rest).lookup name = if name = key then some value else rest.lookup name := by
  rw [List.lookup_cons]
  by_cases same : name = key
  · rw [if_pos same, beq_iff_eq.mpr same]
  · rw [if_neg same, beq_false_of_ne same]

theorem lookup_insertField (name key : String) (value : Json) (fields : List (String × Json)) :
    (insertField key value fields).lookup name =
      if name = key then some value else fields.lookup name := by
  induction fields with
  | nil => exact lookup_cons name key value []
  | cons field rest ih =>
      obtain ⟨held, old⟩ := field
      unfold insertField
      split
      · exact lookup_cons name key value _
      · rename_i equal
        have same : key = held := Std.LawfulEqOrd.eq_of_compare equal
        rw [lookup_cons, lookup_cons, same]
        split <;> rfl
      · rename_i above
        have apart : key ≠ held := by
          rintro rfl
          rw [Std.ReflOrd.compare_self] at above
          cases above
        rw [lookup_cons, lookup_cons, ih]
        by_cases found : name = held
        · rw [if_pos found, if_neg (fun same => apart (same.symm.trans found)), if_pos found]
        · rw [if_neg found, if_neg found]

theorem mem_keys_insertField {name key : String} {value : Json} {fields : List (String × Json)} :
    name ∈ keys (insertField key value fields) ↔ name = key ∨ name ∈ keys fields := by
  induction fields with
  | nil => simp [insertField]
  | cons field rest ih =>
      obtain ⟨held, old⟩ := field
      unfold insertField
      split
      · simp
      · rename_i equal
        have same : key = held := Std.LawfulEqOrd.eq_of_compare equal
        simp [same]
      · simp only [keys, List.map_cons, List.mem_cons] at ih ⊢
        rw [ih]
        exact or_left_comm

theorem nodup_insertField {key : String} {value : Json} {fields : List (String × Json)}
    (absent : key ∉ keys fields) (single : (keys fields).Nodup) :
    (keys (insertField key value fields)).Nodup := by
  induction fields with
  | nil => exact List.nodup_cons.mpr ⟨List.not_mem_nil, List.nodup_nil⟩
  | cons field rest ih =>
      obtain ⟨held, old⟩ := field
      obtain ⟨first, later⟩ := List.nodup_cons.mp single
      have apart := not_or.mp (mt List.mem_cons.mpr absent)
      unfold insertField
      split
      · exact List.nodup_cons.mpr ⟨absent, single⟩
      · rename_i equal
        exact absurd (Std.LawfulEqOrd.eq_of_compare equal) apart.1
      · refine List.nodup_cons.mpr ⟨fun member => ?_, ih apart.2 later⟩
        rcases mem_keys_insertField.mp member with same | held
        · exact apart.1 same.symm
        · exact first held

theorem lookup_eq_none {name : String} {fields : List (String × Json)}
    (absent : name ∉ keys fields) : fields.lookup name = none := by
  induction fields with
  | nil => rfl
  | cons field rest ih =>
      have apart := not_or.mp (mt List.mem_cons.mpr absent)
      rw [← ih apart.2]
      exact (lookup_cons name field.1 field.2 rest).trans (if_neg apart.1)

theorem insertFields {fields : List (String × Json)} (single : (keys fields).Nodup)
    (sorted : List (String × Json)) (once : (keys sorted).Nodup)
    (fresh : ∀ name ∈ keys fields, name ∉ keys sorted) :
    (keys (fields.foldl (fun sorted field => insertField field.1 field.2 sorted) sorted)).Nodup ∧
      ∀ name,
        (fields.foldl (fun sorted field => insertField field.1 field.2 sorted) sorted).lookup
          name = (fields.lookup name).or (sorted.lookup name) := by
  induction fields generalizing sorted with
  | nil => exact ⟨once, fun name => rfl⟩
  | cons field rest ih =>
      obtain ⟨key, value⟩ := field
      obtain ⟨first, later⟩ := List.nodup_cons.mp single
      have absent := fresh key List.mem_cons_self
      obtain ⟨nodup, look⟩ := ih later (insertField key value sorted)
        (nodup_insertField absent once) (by
          intro name member held
          rcases mem_keys_insertField.mp held with same | old
          · exact first (same ▸ member)
          · exact fresh name (List.mem_cons_of_mem _ member) old)
      refine ⟨nodup, fun name => ?_⟩
      rw [List.foldl_cons, look, lookup_insertField, lookup_cons]
      by_cases same : name = key
      · rw [if_pos same, if_pos same, same, lookup_eq_none first]
        rfl
      · rw [if_neg same, if_neg same]

theorem keys_canonicalFields (fields : List (String × Json)) :
    keys (canonicalFields fields) = keys fields := by
  induction fields with
  | nil => rfl
  | cons field rest ih => exact congrArg (field.1 :: ·) ih

theorem lookup_canonicalFields (name : String) (fields : List (String × Json)) :
    (canonicalFields fields).lookup name = (fields.lookup name).map canonical := by
  induction fields with
  | nil => rfl
  | cons field rest ih =>
      rw [canonicalFields, List.lookup_cons, List.lookup_cons, ih]
      split <;> rfl

/-! ### Values as they are kept -/

mutual

/-- The fields of every object stand in ascending order of their keys. -/
def IsKept : Json → Prop
  | .array items => AreKept items
  | .object fields => (keys fields).Pairwise (compare · · = .lt) ∧ FieldsKept fields
  | .null => True
  | .bool _ => True
  | .number _ => True
  | .string _ => True

def AreKept : List Json → Prop
  | [] => True
  | item :: rest => item.IsKept ∧ AreKept rest

def FieldsKept : List (String × Json) → Prop
  | [] => True
  | (_, value) :: rest => value.IsKept ∧ FieldsKept rest

end

theorem insertField_of_last {key : String} {value : Json} {fields : List (String × Json)}
    (last : ∀ held ∈ keys fields, compare held key = .lt) :
    insertField key value fields = fields ++ [(key, value)] := by
  induction fields with
  | nil => rfl
  | cons field rest ih =>
      obtain ⟨held, old⟩ := field
      have above : compare key held = .gt :=
        Std.OrientedCmp.gt_iff_lt.mpr (last held List.mem_cons_self)
      rw [insertField, above, List.cons_append,
        ← ih (fun other member => last other (List.mem_cons_of_mem _ member))]

theorem sortFields_of_ascending {fields : List (String × Json)}
    (ascending : (keys fields).Pairwise (compare · · = .lt)) : sortFields fields = fields := by
  have grown (later sorted : List (String × Json))
      (ascending : (keys (sorted ++ later)).Pairwise (compare · · = .lt)) :
      later.foldl (fun sorted field => insertField field.1 field.2 sorted) sorted =
        sorted ++ later := by
    induction later generalizing sorted with
    | nil => exact (List.append_nil sorted).symm
    | cons field rest ih =>
        have before : ∀ held ∈ keys sorted, compare held field.1 = .lt := by
          rw [keys, List.map_append] at ascending
          exact fun held member =>
            (List.pairwise_append.mp ascending).2.2 held member field.1 List.mem_cons_self
        rw [List.append_cons] at ascending ⊢
        rw [List.foldl_cons, insertField_of_last before]
        exact ih (sorted ++ [field]) ascending
  exact grown fields [] ascending

mutual

theorem canonical_of_isKept : ∀ json : Json, json.IsKept → json.canonical = json
  | .null, _ => rfl
  | .bool _, _ => rfl
  | .number _, _ => rfl
  | .string _, _ => rfl
  | .array items, kept => by rw [canonical, canonicalItems_of_areKept items kept]
  | .object fields, kept => by
      rw [canonical, canonicalFields_of_fieldsKept fields kept.2, sortFields_of_ascending kept.1]

theorem canonicalItems_of_areKept : ∀ items : List Json, AreKept items →
    canonicalItems items = items
  | [], _ => rfl
  | item :: rest, kept => by
      rw [canonicalItems, canonical_of_isKept item kept.1, canonicalItems_of_areKept rest kept.2]

theorem canonicalFields_of_fieldsKept : ∀ fields : List (String × Json), FieldsKept fields →
    canonicalFields fields = fields
  | [], _ => rfl
  | (key, value) :: rest, kept => by
      rw [canonicalFields, canonical_of_isKept value kept.1,
        canonicalFields_of_fieldsKept rest kept.2]

end

/-- The fields of an object may come in another order, each key once as before. -/
structure Keeps (keep : Json → Json) : Prop where
  null : keep .null = .null
  bool (value : Bool) : keep (.bool value) = .bool value
  number (value : Number) : keep (.number value) = .number value
  string (text : String) : keep (.string text) = .string text
  array (items : List Json) : keep (.array items) = .array (items.map keep)
  object {fields : List (String × Json)} (single : (keys fields).Nodup) :
    ∃ kept, keep (.object fields) = .object kept ∧ (keys kept).Nodup ∧
      ∀ name, kept.lookup name = (fields.lookup name).map keep

theorem keeps_id : Keeps id where
  null := rfl
  bool _ := rfl
  number _ := rfl
  string _ := rfl
  array items := by rw [List.map_id]; rfl
  object {fields} single := ⟨fields, rfl, single, fun name => Option.map_id'.symm⟩

theorem canonicalItems_eq (items : List Json) : canonicalItems items = items.map canonical := by
  induction items with
  | nil => rfl
  | cons item rest ih => rw [canonicalItems, ih, List.map_cons]

theorem keeps_canonical : Keeps canonical where
  null := rfl
  bool _ := rfl
  number _ := rfl
  string _ := rfl
  array items := by rw [canonical, canonicalItems_eq]
  object {fields} single := by
    rw [← keys_canonicalFields] at single
    obtain ⟨nodup, look⟩ := insertFields single [] List.nodup_nil
      (fun _ _ held => (List.not_mem_nil held).elim)
    refine ⟨sortFields (canonicalFields fields), by rw [canonical], nodup, fun name => ?_⟩
    rw [sortFields, look, lookup_canonicalFields]
    exact Option.or_none

theorem documents_eq (items : List Json) : documents items = items.map document := by
  induction items with
  | nil => rfl
  | cons item rest ih => rw [documents, ih, List.map_cons]

theorem named_documentFields (known : List String) {fields : List (String × Json)}
    (single : (keys fields).Nodup) (present : List (String × Document))
    (fresh : ∀ name ∈ keys fields, ∀ field ∈ present, field.1 ≠ name) :
    ∃ found, Fields.named known false present (documentFields fields) = some (present ++ found) ∧
      ∀ name ∈ known,
        (found.find? (fun field => field.1 == name)).map Prod.snd =
          (fields.lookup name).map document := by
  induction fields generalizing present with
  | nil => exact ⟨[], by rw [documentFields, Fields.named, List.append_nil], fun _ _ => rfl⟩
  | cons field rest ih =>
      obtain ⟨key, value⟩ := field
      obtain ⟨first, later⟩ := List.nodup_cons.mp single
      by_cases isKnown : key ∈ known
      · have single : ¬present.any (fun field => field.1 == key) = true := by
          intro held
          obtain ⟨other, member, same⟩ := List.any_eq_true.mp held
          exact fresh key List.mem_cons_self other member (eq_of_beq same)
        obtain ⟨found, read, look⟩ := ih later (present ++ [(key, value.document)]) (by
          intro name member field held
          rcases List.mem_append.mp held with old | new
          · exact fresh name (List.mem_cons_of_mem _ member) field old
          · rw [List.mem_singleton.mp new]
            rintro rfl
            exact first member)
        refine ⟨(key, value.document) :: found, ?_, fun name wanted => ?_⟩
        · rw [documentFields, Fields.named, if_pos (List.contains_iff_mem.mpr isKnown),
            if_neg single, read, List.append_assoc, List.singleton_append]
        · rw [lookup_cons, List.find?_cons]
          by_cases same : name = key
          · rw [if_pos same, beq_iff_eq.mpr same.symm]
            rfl
          · rw [if_neg same, beq_false_of_ne (Ne.symm same)]
            exact look name wanted
      · obtain ⟨found, read, look⟩ := ih later present
          (fun name member => fresh name (List.mem_cons_of_mem _ member))
        refine ⟨found, ?_, fun name wanted => ?_⟩
        · rw [documentFields, Fields.named,
            if_neg (fun held => isKnown (List.contains_iff_mem.mp held)), if_neg Bool.false_ne_true,
            read]
        · have apart : name ≠ key := by
            rintro rfl
            exact isKnown wanted
          rw [lookup_cons, if_neg apart]
          exact look name wanted

theorem Keeps.fields {keep : Json → Json} (keeps : Keeps keep) (known : List String)
    {fields : List (String × Json)} (single : (keys fields).Nodup) :
    ∃ found, Fields.of? known false (keep (.object fields)).document = some found ∧
      ∀ name ∈ known,
        found.find? name = (fields.lookup name).map (fun value => (keep value).document) := by
  obtain ⟨kept, same, once, look⟩ := keeps.object single
  obtain ⟨found, read, present⟩ := named_documentFields known once []
    (fun _ _ _ held => (List.not_mem_nil held).elim)
  refine ⟨⟨found, false⟩, ?_, fun name wanted => ?_⟩
  · rw [same, document, Fields.of?, read]
    rfl
  · rw [Fields.find?, present name wanted, look, Option.map_map]
    rfl

end Reanalysis.Json
