/-
Two views of structured data. A `Json` is a value that can be kept and written.
A `Document` is a text as it was read, before anything in it was interpreted: the
fields of its objects stand in their order, repeated ones included, and a leaf
that has no value is marked as such, which matters only to a reader that looks
at it.
-/

import Reanalysis.Binary64

namespace Reanalysis

/-- A whole number between the least 64-bit signed and the largest 64-bit unsigned one, or
a double. -/
inductive Json.Number where
  | integer (value : Int)
  | double (value : Binary64)
deriving DecidableEq, Repr

inductive Json where
  | null
  | bool (value : Bool)
  | number (value : Json.Number)
  | string (text : String)
  | array (items : List Json)
  | object (fields : List (String × Json))
deriving Repr

instance : Inhabited Json := ⟨.null⟩

inductive Document where
  | null
  | bool (value : Bool)
  /-- Nothing stands for a number beyond the doubles. -/
  | number (value : Option Json.Number)
  /-- Nothing stands for a text with an unpaired surrogate. -/
  | string (text : Option String)
  | array (items : List Document)
  | object (fields : List (Option String × Document))

instance : Inhabited Document := ⟨.null⟩

namespace Json

def nat (value : Nat) : Json := .number (.integer value)

/-- Fields in ascending order of their keys, the last of several equal keys. -/
def insertField (key : String) (value : Json) : List (String × Json) → List (String × Json)
  | [] => [(key, value)]
  | (held, old) :: rest =>
      match compare key held with
      | .lt => (key, value) :: (held, old) :: rest
      | .eq => (held, value) :: rest
      | .gt => (held, old) :: insertField key value rest

def sortFields (fields : List (String × Json)) : List (String × Json) :=
  fields.foldl (fun sorted field => insertField field.1 field.2 sorted) []

mutual

/-- A value with the fields of every object sorted, as values are kept. -/
def canonical : Json → Json
  | .array items => .array (canonicalItems items)
  | .object fields => .object (sortFields (canonicalFields fields))
  | .null => .null
  | .bool value => .bool value
  | .number value => .number value
  | .string text => .string text

def canonicalItems : List Json → List Json
  | [] => []
  | item :: rest => canonical item :: canonicalItems rest

def canonicalFields : List (String × Json) → List (String × Json)
  | [] => []
  | (key, value) :: rest => (key, canonical value) :: canonicalFields rest

end

mutual

def document : Json → Document
  | .null => .null
  | .bool value => .bool value
  | .number value => .number (some value)
  | .string text => .string (some text)
  | .array items => .array (documents items)
  | .object fields => .object (documentFields fields)

def documents : List Json → List Document
  | [] => []
  | item :: rest => document item :: documents rest

def documentFields : List (String × Json) → List (Option String × Document)
  | [] => []
  | (key, value) :: rest => (some key, document value) :: documentFields rest

end

end Json

namespace Document

mutual

/-- The value of a text whose arrays and objects nest at most `depth` deep. -/
def value? (depth : Nat) : Document → Option Json
  | .null => some .null
  | .bool value => some (.bool value)
  | .number value => value.map .number
  | .string text => text.map .string
  | .array items =>
      match depth with
      | 0 => none
      | depth + 1 => (values? depth items).map .array
  | .object fields =>
      match depth with
      | 0 => none
      | depth + 1 =>
          (fieldValues? depth fields).map (fun found => .object (Json.sortFields found))

def values? (depth : Nat) : List Document → Option (List Json)
  | [] => some []
  | item :: rest => do
      let first ← value? depth item
      let others ← values? depth rest
      pure (first :: others)

def fieldValues? (depth : Nat) :
    List (Option String × Document) → Option (List (String × Json))
  | [] => some []
  | (key, item) :: rest => do
      let name ← key
      let first ← value? depth item
      let others ← fieldValues? depth rest
      pure ((name, first) :: others)

end

/-- How deep arrays and objects may nest in a text that is read. -/
def nestingLimit : Nat := 127

end Document

end Reanalysis
