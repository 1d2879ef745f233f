/-
A project is a directory with a configuration in it. Its root is the directory of
the configuration file, whatever the current directory is.
-/

import Reanalysis.Engine.BuiltIn
import Reanalysis.Snapshot

namespace Reanalysis

structure Project where
  root : SourcePath
  configPath : SourcePath
  config : Config
deriving DecidableEq, Repr

namespace SourcePath

/-- Makes a path absolute without looking at any file: a `.` vanishes, a `..` stays, and so
does a separator at the end. Two separators in front, and no third, stay as they are. -/
def absolute (path here : SourcePath) : SourcePath :=
  let steps := path.components.filter (· ≠ .here)
  let chars := path.text.toList
  let joined :=
    if path.isAbsolute then
      let front := if chars.take 2 = ['/', '/'] ∧ chars[2]? ≠ some '/' then "/" else ""
      ⟨front ++ (ofComponents steps).text⟩
    else if steps.isEmpty then here
    else here.join (ofComponents steps)
  if chars.getLast? = some '/' ∧ joined.text.toList.getLast? ≠ some '/' then ⟨joined.text ++ "/"⟩
  else joined

end SourcePath

namespace Project

/-- The nearest of the given directory and those above it that holds a configuration; the
depth bounds how far up to look. -/
def findAbove (tree : FileTree) : Nat → SourcePath → Option SourcePath
  | 0, _ => none
  | depth + 1, here =>
      if (tree.resolve (here.join Config.fileName)).toBool then some here
      else here.directory.bind (findAbove tree depth)

def findRoot (tree : FileTree) (start : SourcePath) : Except String SourcePath :=
  match findAbove tree (start.components.length + 1) start with
  | some root => .ok root
  | none =>
      .error ("could not find " ++ Config.fileName.text ++ " in " ++ start.text ++
        " or any parent directory")

/-- The configuration file that was asked for, or the nearest. A directory stands for the
configuration in it. -/
def locate (tree : FileTree) (here : SourcePath) (asked : Option SourcePath) :
    Except String SourcePath :=
  match asked with
  | none => (findRoot tree here).map (·.join Config.fileName)
  | some path =>
      if (tree.directoryAt? (here.join path)).isSome then .ok (path.join Config.fileName)
      else .ok path

def load (tree : FileTree) (here path : SourcePath) : Except ConfigError Project :=
  let file := path.absolute here
  (Config.load tree file).map fun config => ⟨file.directory.getD ⟨"."⟩, file, config⟩

def selection (project : Project) (kind : EngineKind) : Selection :=
  project.config.selection kind project.root

/-- The files that some enabled engine is responsible for, in file order. -/
def watchedFiles (project : Project) (tree : FileTree) : Except ConfigError (List SourcePath) := do
  let found ← project.config.enabledEngines.mapM fun (kind, _) =>
    (project.selection kind).discover tree
  pure (PathSet.ofFiles found.flatten).files

def snapshot (project : Project) (tree : FileTree) : Except ConfigError Snapshot :=
  (project.watchedFiles tree).map (Snapshot.ofFiles tree project.root)

/-- An engine of the project in surroundings that hold the files and a token. -/
def analyzer {σ : Type} (project : Project) (kind : EngineKind) (table : EngineTable)
    (tree : σ → FileTree) (signalled : σ → Bool) : Analyzer σ :=
  { name := kind.name
    selection := project.selection kind
    tree := tree
    read := fun path state => (tree state).read path
    signalled := signalled
    examine := fun file text state => (.ok (table.examine kind file text), state) }

def engineTable (project : Project) (kind : EngineKind) : Except AnalysisError EngineTable :=
  match (project.config.engines.find? kind).filter EngineTable.enabled with
  | some table => .ok table
  | none => .error (.configuration ("engine '" ++ kind.name ++ "' is not enabled"))

end Project

end Reanalysis
