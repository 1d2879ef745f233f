/-
Which files an engine is responsible for. One selection both finds the files of
a tree and judges single paths, so that a file outside it never reaches the
engine.
-/

import Reanalysis.Failure
import Reanalysis.PathMap

namespace Reanalysis

/-- Patterns are paths without `.` steps, relative to the root; extensions have no leading
dot. -/
structure Selection where
  root : SourcePath
  included : List SourcePath
  excluded : List SourcePath
  extensions : List String
deriving DecidableEq, Repr

namespace SourcePath

def isHiddenName (name : String) : Bool := name.toList.head? = some '.'

def normalize (path : SourcePath) : SourcePath :=
  ofComponents (path.components.filter (· ≠ .here))

/-- What follows the last dot of a name, unless nothing stands before that dot. -/
def extension? (name : String) : Option String :=
  let reversed := name.toList.reverse
  let after := reversed.takeWhile (· ≠ '.')
  match reversed.drop after.length with
  | [] => none
  | _ :: before => if before.isEmpty then none else some (String.ofList after.reverse)

end SourcePath

namespace Selection

def of (root : SourcePath) (included excluded extensions : List String) : Selection :=
  { root := root
    included := included.map (fun text => (SourcePath.mk text).normalize)
    excluded := excluded.map (fun text => (SourcePath.mk text).normalize)
    extensions := extensions.map
      (fun text => String.ofList (text.toList.dropWhile (· = '.'))) }

/-- The steps of a path from the root, or all its steps if it does not lie under the root. -/
def relative (selection : Selection) (path : SourcePath) : List Component :=
  ((path.below selection.root).getD path.components).filter (· ≠ .here)

def isHidden : Component → Bool
  | .name text => SourcePath.isHiddenName text
  | _ => false

def extension? : Option Component → Option String
  | some (.name text) => SourcePath.extension? text
  | _ => none

def under (steps : List Component) (patterns : List SourcePath) : Bool :=
  patterns.any (fun pattern => pattern.components.isPrefixOf steps)

/-- Whether a file belongs to the selection: not outside the root, not hidden, with a listed
extension, under an included entry and under no excluded one. -/
def selects (selection : Selection) (path : SourcePath) : Bool :=
  let steps := selection.relative path
  steps.head? ≠ some .root && !steps.any isHidden &&
    (extension? steps.getLast?).any selection.extensions.contains &&
    under steps selection.included && !under steps selection.excluded

/-- What a search below a directory comes upon, in its order: files of the selection, and
directories that cannot be listed. Whatever is no directory passes for a file. The path grows
with every step, so the search is over before it has gone down as many steps as a path may have
bytes. -/
def search (selection : Selection) (tree : FileTree) :
    Nat → SourcePath → Place → List (Except ConfigError SourcePath)
  | 0, _, _ => []
  | depth + 1, path, place =>
      if !tree.isOpenAt place then [.error (.unreadable path .permissionDenied)]
      else
        (tree.entries place).flatMap fun name =>
          let next := path.join ⟨name⟩
          if SourcePath.isHiddenName name then []
          else
            match tree.directoryAt? next with
            | some below => search selection tree depth next below
            | none =>
                if selection.selects next then
                  ((next.below selection.root).map SourcePath.ofComponents).toList.map .ok
                else []

/-- What one included entry leads to: itself if it is a file, else what lies below it. -/
def found (selection : Selection) (tree : FileTree) (entry : SourcePath) :
    List (Except ConfigError SourcePath) :=
  let path := selection.root.join entry
  match tree.directoryAt? path with
  | some place => selection.search tree FileTree.pathLimit path place
  | none => if tree.isFile path && selection.selects path then [.ok entry] else []

/-- All files of the selection in a tree, in ascending file order. The first directory that
cannot be listed ends the search. -/
def discover (selection : Selection) (tree : FileTree) : Except ConfigError (List SourcePath) := do
  let files ← (selection.included.flatMap (selection.found tree)).mapM id
  pure (PathSet.ofFiles files).files

end Selection

end Reanalysis
