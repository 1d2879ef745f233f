/-
Reading typed values out of a document. A record is an object with named fields,
or an array with the fields in the order of their declaration. Fields that the
record does not know are passed over unread, unless it is closed.
-/

import Reanalysis.Json.Value

namespace Reanalysis

namespace Document

def text? : Document → Option String
  | .string text => text
  | _ => none

def bool? : Document → Option Bool
  | .bool value => some value
  | _ => none

def integer? (least greatest : Int) : Document → Option Int
  | .number (some (.integer value)) =>
      if least ≤ value ∧ value ≤ greatest then some value else none
  | _ => none

def natural? (bits : Nat) (document : Document) : Option Nat :=
  (document.integer? 0 (Int.ofNat (Nat.pow 2 bits - 1))).map Int.toNat

def list? {α : Type} (decode : Document → Option α) : Document → Option (List α)
  | .array items => items.mapM decode
  | _ => none

def nullable? {α : Type} (decode : Document → Option α) : Document → Option (Option α)
  | .null => some none
  | document => (decode document).map some

/-- A name, alone or as the only field of an object whose value is null. -/
def name? : Document → Option String
  | .string text => text
  | .object [(key, .null)] => key
  | _ => none

end Document

/-- The fields of a record that are present, each once. -/
structure Fields where
  present : List (String × Document)
  positional : Bool

namespace Fields

def named (known : List String) (closed : Bool) (present : List (String × Document)) :
    List (Option String × Document) → Option (List (String × Document))
  | [] => some present
  | (none, _) :: _ => none
  | (some key, value) :: rest =>
      if known.contains key then
        if present.any (fun field => field.1 == key) then none
        else named known closed (present ++ [(key, value)]) rest
      else if closed then none
      else named known closed present rest

def of? (known : List String) (closed : Bool) : Document → Option Fields
  | .object fields => (named known closed [] fields).map (fun present => ⟨present, false⟩)
  | .array items =>
      if items.length ≤ known.length then some ⟨known.zip items, true⟩ else none
  | _ => none

/-- The fields of a table, where further items of an array are passed over unread. -/
def ofTable? (known : List String) (closed : Bool) : Document → Option Fields
  | .array items => of? known closed (.array (items.take known.length))
  | document => of? known closed document

def find? (fields : Fields) (name : String) : Option Document :=
  (fields.present.find? (fun field => field.1 == name)).map Prod.snd

def required {α : Type} (fields : Fields) (name : String) (decode : Document → Option α) :
    Option α :=
  (fields.find? name).bind decode

def orElse {α : Type} (fields : Fields) (name : String) (fallback : α)
    (decode : Document → Option α) : Option α :=
  match fields.find? name with
  | none => some fallback
  | some document => decode document

/-- A field that may be null, or left out where the fields are named. -/
def orNull {α : Type} (fields : Fields) (name : String) (decode : Document → Option α) :
    Option (Option α) :=
  match fields.find? name with
  | none => if fields.positional then none else some none
  | some document => document.nullable? decode

end Fields

end Reanalysis
