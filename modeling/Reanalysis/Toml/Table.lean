/-
Tables that are built entry by entry. A table remembers whether it was only
implied by a longer name, and whether a dotted key made it: a header may define
an implied table once, and a dotted key may only extend tables that dotted keys
made.
-/

import Reanalysis.Json.Value

namespace Reanalysis.Toml

inductive Item where
  | value (document : Document)
  | table (implied dotted : Bool) (entries : List (String × Item))
  /-- An array of tables, each given by its entries. -/
  | tables (members : List (List (String × Item)))

abbrev Entries := List (String × Item)

namespace Entries

def find? (entries : Entries) (key : String) : Option Item :=
  (List.find? (fun entry => entry.1 == key) entries).map Prod.snd

def without (entries : Entries) (key : String) : Entries :=
  entries.filter (fun entry => entry.1 != key)

def put (entries : Entries) (key : String) (item : Item) : Entries :=
  entries.without key ++ [(key, item)]

/-- Follows a path of keys into nested tables, making those that are missing, and edits the
entries at its end. The edit is told whether a dotted key made the table it edits. -/
def editAt (byDots : Bool) (edit : Bool → Entries → Option Entries) :
    List String → Bool → Entries → Option Entries
  | [], dotted, entries => edit dotted entries
  | key :: rest, _, entries =>
      match entries.find? key with
      | none =>
          (editAt byDots edit rest byDots []).map fun inner =>
            entries.put key (.table true byDots inner)
      | some (.value _) => none
      | some (.table implied dotted inner) =>
          if byDots && !implied then none
          else
            (editAt byDots edit rest dotted inner).map fun changed =>
              entries.put key (.table implied dotted changed)
      | some (.tables members) =>
          match members.getLast? with
          | none => none
          | some last =>
              (editAt byDots edit rest false last).map fun changed =>
                entries.put key (.tables (members.dropLast ++ [changed]))

def set (entries : Entries) (path : List String) (key : String) (document : Document) :
    Option Entries :=
  editAt true
    (fun dotted inner =>
      if dotted = path.isEmpty then none
      else if (inner.find? key).isSome then none
      else some (inner.put key (.value document)))
    path false entries

end Entries

mutual

def Item.document : Item → Document
  | .value document => document
  | .table _ _ entries => .object (entryDocuments entries)
  | .tables members => .array (memberDocuments members)

private def entryDocuments : List (String × Item) → List (Option String × Document)
  | [] => []
  | (key, item) :: rest => (some key, item.document) :: entryDocuments rest

private def memberDocuments : List (List (String × Item)) → List Document
  | [] => []
  | entries :: rest => .object (entryDocuments entries) :: memberDocuments rest

end

def Entries.document (entries : Entries) : Document := (Item.table false false entries).document

/-- The tables finished so far, and the one that lines are added to. -/
structure Sections where
  finished : Entries
  path : List String
  repeated : Bool
  current : Entries

namespace Sections

def start : Sections := ⟨[], [], false, []⟩

def finish (sections : Sections) : Option Entries :=
  match sections.path.getLast? with
  | none => some sections.current
  | some key =>
      Entries.editAt false
        (fun _ parent =>
          if sections.repeated then
            match parent.find? key with
            | none => some (parent.put key (.tables [sections.current]))
            | some (.tables members) =>
                some (parent.put key (.tables (members ++ [sections.current])))
            | some _ => none
          else if (parent.find? key).isSome then none
          else some (parent.put key (.table false false sections.current)))
        sections.path.dropLast false sections.finished

/-- Begins the table of a header. One that was only implied is taken up again. -/
def openTable (sections : Sections) (path : List String) : Option Sections := do
  let finished ← sections.finish
  let key ← path.getLast?
  let held := fun (parent : Entries) =>
    match parent.find? key with
    | none => some []
    | some (.table true false inner) => some inner
    | some _ => none
  let parents ← Entries.editAt false (fun _ parent => (held parent).map fun _ => parent)
    path.dropLast false finished
  let inner ← contents path.dropLast parents
  let taken ← held inner
  let rest ← Entries.editAt false (fun _ parent => some (parent.without key)) path.dropLast false
    parents
  pure ⟨rest, path, false, taken⟩
where
  /-- The entries at the end of a path that exists. -/
  contents : List String → Entries → Option Entries
    | [], entries => some entries
    | key :: rest, entries =>
        match entries.find? key with
        | some (.table _ _ inner) => contents rest inner
        | some (.tables members) => members.getLast?.bind (contents rest)
        | _ => none

def openMember (sections : Sections) (path : List String) : Option Sections := do
  let finished ← sections.finish
  let key ← path.getLast?
  let rest ← Entries.editAt false
    (fun _ parent =>
      match parent.find? key with
      | none => some parent
      | some (.tables _) => some parent
      | some _ => none)
    path.dropLast false finished
  pure ⟨rest, path, true, []⟩

def set (sections : Sections) (path : List String) (key : String) (document : Document) :
    Option Sections :=
  (sections.current.set path key document).map fun current => { sections with current := current }

end Sections

end Reanalysis.Toml
