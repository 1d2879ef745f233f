/-
The data that travels inside messages: how each type is written as a value and
read from a document. What is written has its fields in the order of their
declaration.
-/

import Reanalysis.Cancellation
import Reanalysis.Change
import Reanalysis.Failure
import Reanalysis.Issue
import Reanalysis.Json.Fields
import Reanalysis.Partition

namespace Reanalysis

namespace SourcePath

def toJson (path : SourcePath) : Json := .string path.text

def ofDocument? (document : Document) : Option SourcePath := document.text?.map SourcePath.mk

end SourcePath

namespace Change

def toJson (change : Change) : Json :=
  .object
    [("changedFiles", .array (change.changed.files.map SourcePath.toJson)),
      ("deletedFiles", .array (change.deleted.files.map SourcePath.toJson))]

def files? (document : Document) : Option PathSet :=
  (document.list? SourcePath.ofDocument?).map PathSet.ofFiles

/-- Both sets are taken as they are; a missing one is empty. -/
def ofDocument? (document : Document) : Option Change := do
  let fields ← Fields.of? ["changedFiles", "deletedFiles"] false document
  let changed ← fields.orElse "changedFiles" PathMap.empty files?
  let deleted ← fields.orElse "deletedFiles" PathMap.empty files?
  pure ⟨changed, deleted⟩

end Change

namespace Severity

def toJson (severity : Severity) : Json := .string severity.name

def ofDocument? (document : Document) : Option Severity := document.name?.bind ofName?

end Severity

namespace EngineFamily

def toJson (family : EngineFamily) : Json := .string family.name

def ofDocument? (document : Document) : Option EngineFamily := document.name?.bind ofName?

end EngineFamily

namespace Issue

def toJson (issue : Issue) : Json :=
  .object
    [("file", issue.file.toJson), ("line", .nat issue.line.toNat),
      ("column", .nat issue.column.toNat), ("severity", issue.severity.toJson),
      ("code", .string issue.code), ("message", .string issue.message),
      ("source", issue.source.toJson)]

def place? (document : Document) : Option UInt32 :=
  (document.natural? 32).map UInt32.ofNat

def ofDocument? (document : Document) : Option Issue := do
  let fields ← Fields.of?
    ["file", "line", "column", "severity", "code", "message", "source"] false document
  let file ← fields.required "file" SourcePath.ofDocument?
  let line ← fields.required "line" place?
  let column ← fields.required "column" place?
  let severity ← fields.required "severity" Severity.ofDocument?
  let code ← fields.required "code" Document.text?
  let message ← fields.required "message" Document.text?
  let source ← fields.required "source" EngineFamily.ofDocument?
  pure ⟨file, line, column, severity, code, message, source⟩

def listToJson (issues : List Issue) : Json := .array (issues.map toJson)

def listOfDocument? (document : Document) : Option (List Issue) := document.list? ofDocument?

end Issue

namespace Partition

def toJson (share : Partition) : Json :=
  .object [("index", .nat share.index), ("count", .nat share.count)]

/-- A share is taken as it is, also one among no workers. -/
def ofDocument? (document : Document) : Option Partition := do
  let fields ← Fields.of? ["index", "count"] false document
  let index ← fields.required "index" (Document.natural? 64)
  let count ← fields.required "count" (Document.natural? 64)
  pure ⟨index, count⟩

end Partition

namespace Signal

def toJson (signal : Signal) : Json :=
  .object [("id", .nat signal.id), ("cancelled", .bool signal.cancelled)]

def ofDocument? (document : Document) : Option Signal := do
  let fields ← Fields.of? ["id", "cancelled"] false document
  let id ← fields.required "id" (Document.natural? 64)
  let cancelled ← fields.required "cancelled" Document.bool?
  pure ⟨id, cancelled⟩

end Signal

/-! ### Faults -/

namespace FaultKind

def toJson (kind : FaultKind) : Json := .string kind.name

def ofDocument? (document : Document) : Option FaultKind := document.name?.bind ofName?

end FaultKind

namespace Fault

def toJson (fault : Fault) : Json :=
  .object [("kind", fault.kind.toJson), ("message", .string fault.message)]

def ofDocument? (document : Document) : Option Fault := do
  let fields ← Fields.of? ["kind", "message"] false document
  let kind ← fields.required "kind" FaultKind.ofDocument?
  let message ← fields.required "message" Document.text?
  pure ⟨kind, message⟩

end Fault

structure Greeting where
  engine : String
deriving DecidableEq, Repr

namespace Greeting

def toJson (greeting : Greeting) : Json := .object [("engine", .string greeting.engine)]

def ofDocument? (document : Document) : Option Greeting := do
  let fields ← Fields.of? ["engine"] false document
  let engine ← fields.required "engine" Document.text?
  pure ⟨engine⟩

end Greeting

/-- What to analyze. With a share the change is not looked at. -/
structure RunOrder where
  change : Option Change
  share : Option Partition
  signal : Signal

namespace RunOrder

def orNothing {α : Type} (encode : α → Json) : Option α → Json
  | none => .null
  | some value => encode value

def toJson (order : RunOrder) : Json :=
  .object
    [("change", orNothing Change.toJson order.change),
      ("partition", orNothing Partition.toJson order.share),
      ("cancellation", order.signal.toJson)]

def ofDocument? (document : Document) : Option RunOrder := do
  let fields ← Fields.of? ["change", "partition", "cancellation"] false document
  let change ← fields.orElse "change" none (Document.nullable? Change.ofDocument?)
  let share ← fields.orElse "partition" none (Document.nullable? Partition.ofDocument?)
  let signal ← fields.required "cancellation" Signal.ofDocument?
  pure ⟨change, share, signal⟩

end RunOrder

structure SeedOrder where
  issues : List Issue
deriving DecidableEq, Repr

namespace SeedOrder

def toJson (order : SeedOrder) : Json := .object [("issues", Issue.listToJson order.issues)]

def ofDocument? (document : Document) : Option SeedOrder := do
  let fields ← Fields.of? ["issues"] false document
  let issues ← fields.required "issues" Issue.listOfDocument?
  pure ⟨issues⟩

end SeedOrder

structure CancelOrder where
  token : Nat
deriving DecidableEq, Repr

namespace CancelOrder

def toJson (order : CancelOrder) : Json := .object [("token", .nat order.token)]

def ofDocument? (document : Document) : Option CancelOrder := do
  let fields ← Fields.of? ["token"] false document
  let token ← fields.required "token" (Document.natural? 64)
  pure ⟨token⟩

end CancelOrder

def Document.unit? : Document → Option Unit
  | .null => some ()
  | _ => none

end Reanalysis
