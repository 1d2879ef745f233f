/-
The configuration of a project: its engines, which files each of them analyzes,
and which issues are published. A configuration is first read as it stands and
then checked; the first problem found is the one that is reported.
-/

import Reanalysis.Json.Fields
import Reanalysis.Selection
import Reanalysis.Toml.Reader

namespace Reanalysis

/-- The engines in the order in which they run and their issues are shown. -/
inductive EngineKind where
  | check
  | lint
deriving DecidableEq, Repr

namespace EngineKind

def all : List EngineKind := [.check, .lint]

def name : EngineKind → String
  | .check => "check"
  | .lint => "lint"

def ofName? (text : String) : Option EngineKind := all.find? (fun kind => kind.name == text)

end EngineKind

structure ProjectTable where
  name : String
  description : String
deriving DecidableEq, Repr

/-- Paths are relative to the project root. -/
structure FilesTable where
  included : List String
  excluded : List String
  extensions : List String
deriving DecidableEq, Repr

structure WatchTable where
  pollMilliseconds : Nat
deriving DecidableEq, Repr

/-- Own lists of paths take the place of those for all engines. -/
structure EngineTable where
  enabled : Bool
  workers : Nat
  included : Option (List String)
  excluded : Option (List String)
  allowed : List String
  denied : List String
  longestLine : Nat
deriving DecidableEq, Repr

structure EnginesTable where
  check : Option EngineTable
  lint : Option EngineTable
deriving DecidableEq, Repr

def EnginesTable.find? (engines : EnginesTable) : EngineKind → Option EngineTable
  | .check => engines.check
  | .lint => engines.lint

structure IssuesTable where
  included : List String
  excluded : List String
  excludedCodes : List String
  leastSeverity : Option String
deriving DecidableEq, Repr

structure Config where
  project : ProjectTable
  files : FilesTable
  watch : WatchTable
  engines : EnginesTable
  issues : IssuesTable
deriving DecidableEq, Repr

def FilesTable.standard : FilesTable := ⟨["src"], [], ["js", "jsx", "ts", "tsx"]⟩

def WatchTable.standard : WatchTable := ⟨500⟩

def EnginesTable.standard : EnginesTable := ⟨none, none⟩

def IssuesTable.standard : IssuesTable := ⟨[], [], [], none⟩

/-! ### Reading -/

def Document.texts? : Document → Option (List String)
  | .string text => text.map ([·])
  | document => document.list? text?

def ProjectTable.ofDocument? (document : Document) : Option ProjectTable := do
  let fields ← Fields.ofTable? ["name", "description"] false document
  pure
    { name := ← fields.required "name" Document.text?
      description := ← fields.orElse "description" "" Document.text? }

def FilesTable.ofDocument? (document : Document) : Option FilesTable := do
  let fields ← Fields.ofTable? ["include", "exclude", "extensions"] false document
  pure
    { included := ← fields.orElse "include" standard.included Document.texts?
      excluded := ← fields.orElse "exclude" standard.excluded Document.texts?
      extensions := ← fields.orElse "extensions" standard.extensions Document.texts? }

def WatchTable.ofDocument? (document : Document) : Option WatchTable := do
  let fields ← Fields.ofTable? ["poll_interval_ms"] false document
  pure
    { pollMilliseconds :=
        ← fields.orElse "poll_interval_ms" standard.pollMilliseconds (Document.natural? 64) }

def EngineTable.ofDocument? (document : Document) : Option EngineTable := do
  let fields ← Fields.ofTable?
    ["enabled", "workers", "include", "exclude", "allow", "deny", "max_line_length"] false document
  pure
    { enabled := ← fields.orElse "enabled" true Document.bool?
      workers := ← fields.orElse "workers" 1 (Document.natural? 64)
      included := ← fields.orElse "include" none (fun item => item.texts?.map some)
      excluded := ← fields.orElse "exclude" none (fun item => item.texts?.map some)
      allowed := ← fields.orElse "allow" [] (Document.list? Document.text?)
      denied := ← fields.orElse "deny" [] (Document.list? Document.text?)
      longestLine := ← fields.orElse "max_line_length" 120 (Document.natural? 64) }

def EnginesTable.ofDocument? (document : Document) : Option EnginesTable := do
  let fields ← Fields.ofTable? ["check", "lint"] true document
  pure
    { check := ← fields.orNull "check" EngineTable.ofDocument?
      lint := ← fields.orNull "lint" EngineTable.ofDocument? }

def IssuesTable.ofDocument? (document : Document) : Option IssuesTable := do
  let fields ← Fields.ofTable? ["include", "exclude", "exclude_codes", "min_severity"] true document
  pure
    { included := ← fields.orElse "include" [] Document.texts?
      excluded := ← fields.orElse "exclude" [] Document.texts?
      excludedCodes := ← fields.orElse "exclude_codes" [] Document.texts?
      leastSeverity := ← fields.orElse "min_severity" none (Document.nullable? Document.text?) }

namespace Config

def ofDocument? (document : Document) : Option Config := do
  let fields ← Fields.ofTable? ["project", "files", "watch", "engines", "issues"] false document
  pure
    { project := ← fields.required "project" ProjectTable.ofDocument?
      files := ← fields.orElse "files" .standard FilesTable.ofDocument?
      watch := ← fields.orElse "watch" .standard WatchTable.ofDocument?
      engines := ← fields.orElse "engines" .standard EnginesTable.ofDocument?
      issues := ← fields.orElse "issues" .standard IssuesTable.ofDocument? }

def enabledEngines (config : Config) : List (EngineKind × EngineTable) :=
  EngineKind.all.filterMap fun kind =>
    ((config.engines.find? kind).filter EngineTable.enabled).map fun table => (kind, table)

def workerLimit : Nat := 64

def demand (sound : Bool) (error : ConfigError) : List ConfigError :=
  if sound then [] else [error]

def engineProblems (kind : EngineKind) (table : EngineTable) : List ConfigError :=
  demand (1 ≤ table.workers && table.workers ≤ workerLimit)
      (.invalid ("engines." ++ kind.name ++ ".workers must be between 1 and " ++
        toString workerLimit ++ ", got " ++ toString table.workers)) ++
    demand (table.included ≠ some [])
      (.invalid ("engines." ++ kind.name ++ ".include must not be empty")) ++
    demand (table.longestLine ≠ 0)
      (.invalid ("engines." ++ kind.name ++ ".max_line_length must be positive"))

/-- Everything that stands in the way of running a configuration. Engines that are switched
off are not looked at. -/
def problems (config : Config) : List ConfigError :=
  demand (config.project.name ≠ "") (.missing "project.name") ++
    demand (config.files.included ≠ []) (.missing "files.include") ++
    demand (config.files.extensions ≠ []) (.missing "files.extensions") ++
    demand (config.issues.leastSeverity.all (["warning", "error"].contains ·))
      (.invalid ("issues.min_severity must be one of warning, error, got '" ++
        config.issues.leastSeverity.getD "" ++ "'")) ++
    demand (config.enabledEngines ≠ []) (.invalid "no analysis engine is enabled") ++
    config.enabledEngines.flatMap (fun (kind, table) => engineProblems kind table)

def validate (config : Config) : Except ConfigError Unit :=
  match config.problems with
  | [] => .ok ()
  | problem :: _ => .error problem

def ofText (text : String) : Except ConfigError Config :=
  match (Toml.read text).bind ofDocument? with
  | none => .error .malformed
  | some config => config.validate.map fun _ => config

def load (tree : FileTree) (path : SourcePath) : Except ConfigError Config :=
  match tree.readText path with
  | .error fault => .error (.unreadable path fault)
  | .ok text => ofText text

def fileName : SourcePath := ⟨"vigil.toml"⟩

def selection (config : Config) (kind : EngineKind) (root : SourcePath) : Selection :=
  let table := config.engines.find? kind
  Selection.of root
    ((table.bind EngineTable.included).getD config.files.included)
    ((table.bind EngineTable.excluded).getD config.files.excluded)
    config.files.extensions

end Config

end Reanalysis
