/-
Issues as text for a terminal: a header, the position, and the source line with
a mark under the column, if the line can be read.
-/

import Reanalysis.FileTree
import Reanalysis.Issue

namespace Reanalysis

/-- Source lines are only shown where there is a root to find them under. -/
structure Renderer where
  color : Bool
  root : Option SourcePath
deriving DecidableEq, Repr

namespace Renderer

private def spaces (count : Nat) : String := String.ofList (List.replicate count ' ')

private def paint (renderer : Renderer) (severity : Severity) (text : String) : String :=
  if renderer.color then
    let code := match severity with | .error => "31" | .warning => "33"
    "\x1b[1;" ++ code ++ "m" ++ text ++ "\x1b[0m"
  else text

private def sourceLine? (renderer : Renderer) (tree : FileTree) (issue : Issue) :
    Option (List Char) :=
  match renderer.root with
  | none => none
  | some root =>
      match tree.readText (root.join issue.file) with
      | .error _ => none
      | .ok text =>
          if issue.line = 0 then none else (Text.lines text)[issue.line.toNat - 1]?

def render (renderer : Renderer) (tree : FileTree) (issue : Issue) : String :=
  let header := issue.severity.name ++ "[" ++ issue.code ++ "]"
  let top := renderer.paint issue.severity header ++ ": " ++ issue.message ++ "\n" ++
    "  --> " ++ issue.file.text ++ ":" ++ toString issue.line.toNat ++ ":" ++
      toString issue.column.toNat ++ " (" ++ issue.source.name ++ ")\n"
  match renderer.sourceLine? tree issue with
  | none => top
  | some line =>
      let number := toString issue.line.toNat
      let margin := spaces number.length
      top ++ margin ++ " |\n" ++ number ++ " | " ++ String.ofList line ++ "\n" ++
        margin ++ " | " ++ spaces (issue.column.toNat - 1) ++
          renderer.paint issue.severity "^" ++ "\n"

end Renderer

end Reanalysis
