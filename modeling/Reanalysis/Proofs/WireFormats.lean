/-
The data inside messages is read as it was written, also after it was kept as a value with
the fields of its objects in order. Numbers are those of 64 bits.
-/

import Reanalysis.Proofs.ChangeContents
import Reanalysis.Proofs.JsonText
import Reanalysis.Proofs.KeptValues
import Reanalysis.Wire.Message

namespace Reanalysis

open Json

/-- A value is written so that its text is read back, and so is what may be kept of it. -/
structure Travels {α : Type} (decode : Document → Option α) (json : Json) (value : α) : Prop where
  whole : json.IsWhole
  read {keep : Json → Json} (keeps : Keeps keep) : decode (keep json).document = some value

theorem Travels.text {α : Type} {decode : Document → Option α} {json : Json} {value : α}
    (travels : Travels decode json value) :
    (Document.read json.render).bind decode = some value := by
  rw [read_render travels.whole]
  exact travels.read keeps_id

theorem travels_string (text : String) : Travels Document.text? (.string text) text where
  whole := trivial
  read keeps := by rw [keeps.string]; rfl

theorem travels_bool (value : Bool) : Travels Document.bool? (.bool value) value where
  whole := trivial
  read keeps := by rw [keeps.bool]; rfl

theorem travels_nat {bits value : Nat} (few : bits ≤ 64) (small : value < Nat.pow 2 bits) :
    Travels (Document.natural? bits) (.nat value) value where
  whole := by
    have large : Nat.pow 2 bits ≤ Nat.pow 2 64 := Nat.pow_le_pow_right (by decide) few
    exact ⟨by omega, Int.ofNat_lt.mpr (Nat.lt_of_lt_of_le small large)⟩
  read keeps := by
    rw [Json.nat, keeps.number, document, Document.natural?, Document.integer?, if_pos]
    · rfl
    · constructor
      · omega
      · change (value : Int) ≤ ((Nat.pow 2 bits - 1 : Nat) : Int)
        omega

theorem travels_list {α : Type} {decode : Document → Option α} {encode : α → Json}
    (values : List α) (each : ∀ value ∈ values, Travels decode (encode value) value) :
    Travels (Document.list? decode) (.array (values.map encode)) values where
  whole := by
    induction values with
    | nil => trivial
    | cons value rest ih =>
        exact ⟨(each value List.mem_cons_self).whole,
          ih (fun other member => each other (List.mem_cons_of_mem _ member))⟩
  read {keep} keeps := by
    rw [keeps.array, document, documents_eq, Document.list?]
    induction values with
    | nil => rfl
    | cons value rest ih =>
        have later := ih (fun other member => each other (List.mem_cons_of_mem _ member))
        rw [List.map_cons, List.map_cons, List.map_cons, List.mapM_cons,
          (each value List.mem_cons_self).read keeps]
        rw [later]
        rfl

theorem travels_path (path : SourcePath) : Travels SourcePath.ofDocument? path.toJson path where
  whole := trivial
  read keeps := by
    rw [SourcePath.ofDocument?, SourcePath.toJson, (travels_string path.text).read keeps]
    rfl

/-! ### Records -/

theorem travels_record {α : Type} {decode : Document → Option α} {value : α}
    {fields : List (String × Json)} (known : List String) {taken : Fields → Option α}
    (single : (keys fields).Nodup) (whole : FieldsWhole fields)
    (opened : ∀ document, decode document = (Fields.of? known false document).bind taken)
    (found : ∀ {keep : Json → Json}, Keeps keep → ∀ present : Fields,
      (∀ name ∈ known, present.find? name =
        (fields.lookup name).map (fun field => (keep field).document)) →
      taken present = some value) : Travels decode (.object fields) value := by
  refine ⟨whole, fun keeps => ?_⟩
  obtain ⟨present, read, look⟩ := keeps.fields known single
  rw [opened, read]
  exact found keeps present look

theorem Partition.travels {share : Partition} (index : share.index < UInt64.size)
    (count : share.count < UInt64.size) : Travels ofDocument? share.toJson share := by
  have index := travels_nat (Nat.le_refl 64) index
  have count := travels_nat (Nat.le_refl 64) count
  refine travels_record ["index", "count"]
    (by decide : ["index", "count"].Nodup) ⟨index.whole, count.whole, trivial⟩ (fun _ => rfl)
    fun keeps present look => ?_
  simp [Fields.required, look, List.lookup_cons, index.read keeps, count.read keeps]

theorem Signal.travels {signal : Signal} (id : signal.id < UInt64.size) :
    Travels ofDocument? signal.toJson signal := by
  have id := travels_nat (Nat.le_refl 64) id
  have cancelled := travels_bool signal.cancelled
  refine travels_record ["id", "cancelled"]
    (by decide : ["id", "cancelled"].Nodup) ⟨id.whole, cancelled.whole, trivial⟩ (fun _ => rfl)
    fun keeps present look => ?_
  simp [Fields.required, look, List.lookup_cons, id.read keeps, cancelled.read keeps]

theorem Change.travels_files (files : PathSet) :
    Travels files? (.array (files.files.map SourcePath.toJson)) files := by
  have list := travels_list files.files (fun path _ => travels_path path)
  refine ⟨list.whole, fun keeps => ?_⟩
  rw [files?, list.read keeps, Option.map_some, PathSet.ofFiles, PathSet.addAll_files]

theorem Change.travels (change : Change) : Travels ofDocument? change.toJson change := by
  have changed := travels_files change.changed
  have deleted := travels_files change.deleted
  refine travels_record ["changedFiles", "deletedFiles"]
    (by decide : ["changedFiles", "deletedFiles"].Nodup)
    ⟨changed.whole, deleted.whole, trivial⟩ (fun _ => rfl)
    fun keeps present look => ?_
  simp [Fields.orElse, look, List.lookup_cons, changed.read keeps, deleted.read keeps]

theorem Severity.travels (severity : Severity) :
    Travels ofDocument? severity.toJson severity where
  whole := trivial
  read keeps := by
    rw [toJson, keeps.string]
    cases severity <;> rfl

theorem EngineFamily.travels (family : EngineFamily) :
    Travels ofDocument? family.toJson family where
  whole := trivial
  read keeps := by
    rw [toJson, keeps.string]
    cases family <;> rfl

theorem FaultKind.travels (kind : FaultKind) : Travels ofDocument? kind.toJson kind where
  whole := trivial
  read keeps := by
    rw [toJson, keeps.string]
    cases kind <;> rfl

theorem Issue.travels_place (place : UInt32) :
    Travels place? (.nat place.toNat) place := by
  have natural := travels_nat (by decide) (place.toNat_lt)
  refine ⟨natural.whole, fun keeps => ?_⟩
  rw [place?, natural.read keeps, Option.map_some, UInt32.ofNat_toNat]

theorem Issue.travels (issue : Issue) : Travels ofDocument? issue.toJson issue := by
  have file := travels_path issue.file
  have line := travels_place issue.line
  have column := travels_place issue.column
  have severity := issue.severity.travels
  have code := travels_string issue.code
  have message := travels_string issue.message
  have source := issue.source.travels
  refine travels_record ["file", "line", "column", "severity", "code", "message", "source"]
    (by decide : ["file", "line", "column", "severity", "code", "message", "source"].Nodup)
    ⟨file.whole, line.whole, column.whole, severity.whole, code.whole, message.whole,
    source.whole, trivial⟩ (fun _ => rfl)
    fun keeps present look => ?_
  simp [Fields.required, look, List.lookup_cons, file.read keeps, line.read keeps, column.read keeps,
    severity.read keeps, code.read keeps, message.read keeps, source.read keeps]

theorem Issue.travels_all (issues : List Issue) :
    Travels listOfDocument? (listToJson issues) issues :=
  travels_list issues (fun issue _ => issue.travels)

theorem Fault.travels (fault : Fault) : Travels ofDocument? fault.toJson fault := by
  have kind := fault.kind.travels
  have message := travels_string fault.message
  refine travels_record ["kind", "message"]
    (by decide : ["kind", "message"].Nodup) ⟨kind.whole, message.whole, trivial⟩ (fun _ => rfl)
    fun keeps present look => ?_
  simp [Fields.required, look, List.lookup_cons, kind.read keeps, message.read keeps]

theorem Greeting.travels (greeting : Greeting) :
    Travels ofDocument? greeting.toJson greeting := by
  have engine := travels_string greeting.engine
  refine travels_record ["engine"]
    (by decide : ["engine"].Nodup) ⟨engine.whole, trivial⟩ (fun _ => rfl)
    fun keeps present look => ?_
  simp [Fields.required, look, engine.read keeps]

theorem SeedOrder.travels (order : SeedOrder) : Travels ofDocument? order.toJson order := by
  have issues := Issue.travels_all order.issues
  refine travels_record ["issues"]
    (by decide : ["issues"].Nodup) ⟨issues.whole, trivial⟩ (fun _ => rfl)
    fun keeps present look => ?_
  simp [Fields.required, look, issues.read keeps]

theorem CancelOrder.travels {order : CancelOrder} (token : order.token < UInt64.size) :
    Travels ofDocument? order.toJson order := by
  have token := travels_nat (Nat.le_refl 64) token
  refine travels_record ["token"]
    (by decide : ["token"].Nodup) ⟨token.whole, trivial⟩ (fun _ => rfl)
    fun keeps present look => ?_
  simp [Fields.required, look, token.read keeps]

theorem RunOrder.travels_orNothing {α : Type} {decode : Document → Option α} {encode : α → Json}
    (found : Option α) (each : ∀ value ∈ found, Travels decode (encode value) value)
    (something : ∀ value ∈ found, ∀ keep, Keeps keep → (keep (encode value)).document ≠ .null) :
    Travels (Document.nullable? decode) (orNothing encode found) found := by
  cases found with
  | none => exact ⟨trivial, fun keeps => by rw [orNothing, keeps.null]; rfl⟩
  | some value =>
      have one := each value rfl
      refine ⟨one.whole, fun keeps => ?_⟩
      rw [orNothing, Document.nullable?, one.read keeps]
      · rfl
      · exact something value rfl _ keeps

theorem document_object_ne_null {keep : Json → Json} (keeps : Keeps keep)
    {fields : List (String × Json)} (single : (keys fields).Nodup) :
    (keep (.object fields)).document ≠ .null := by
  obtain ⟨kept, same, _⟩ := keeps.object single
  rw [same, document]
  exact Document.noConfusion

theorem RunOrder.travels {order : RunOrder}
    (share : ∀ share ∈ order.share, share.index < UInt64.size ∧ share.count < UInt64.size)
    (signal : order.signal.id < UInt64.size) : Travels ofDocument? order.toJson order := by
  have change := travels_orNothing order.change (fun change _ => change.travels)
    (fun change _ keep keeps => document_object_ne_null keeps
      (by decide : ["changedFiles", "deletedFiles"].Nodup))
  have share := travels_orNothing order.share
    (fun found held => Partition.travels (share found held).1 (share found held).2)
    (fun found _ keep keeps => document_object_ne_null keeps (by decide : ["index", "count"].Nodup))
  have signal := Signal.travels signal
  refine travels_record ["change", "partition", "cancellation"]
    (by decide : ["change", "partition", "cancellation"].Nodup)
    ⟨change.whole, share.whole, signal.whole, trivial⟩ (fun _ => rfl)
    fun keeps present look => ?_
  simp [Fields.required, Fields.orElse, look, List.lookup_cons, change.read keeps, share.read keeps,
    signal.read keeps]

end Reanalysis
