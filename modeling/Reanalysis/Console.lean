/-
How reports are printed: for people, with an excerpt for every issue and a summary
at the end, or as one JSON list. Text belongs on the error stream, JSON on the other.
-/

import Reanalysis.CommandLine
import Reanalysis.Json.Printer
import Reanalysis.Lifecycle
import Reanalysis.Renderer
import Reanalysis.Wire.Payload

namespace Reanalysis

structure Printed where
  out : String
  err : String
deriving DecidableEq, Repr

namespace Printed

def nothing : Printed := ⟨"", ""⟩

def append (first second : Printed) : Printed :=
  ⟨first.out ++ second.out, first.err ++ second.err⟩

instance : Append Printed := ⟨append⟩

end Printed

structure Console where
  renderer : Renderer
  format : ReportFormat
  quiet : Bool
deriving DecidableEq, Repr

namespace Console

private def block (console : Console) (tree : FileTree) (issue : Issue) : String :=
  console.renderer.render tree issue ++ "\n"

def summary (issues : List Issue) : String :=
  let tally := Tally.ofIssues issues
  "   Result: " ++ toString tally.errors ++ " error(s), " ++ toString tally.warnings ++
    " warning(s)\n"

/-- A quiet console shows errors only, and no summary. -/
def report (console : Console) (tree : FileTree) (issues : List Issue) : Printed :=
  match console.format with
  | .json => ⟨(Issue.listToJson issues).renderLines ++ "\n", ""⟩
  | .text =>
      let blocks := fun (shown : List Issue) => String.join (shown.map (console.block tree))
      if console.quiet then ⟨"", blocks (issues.filter fun issue => issue.severity = .error)⟩
      else ⟨"", blocks issues ++ summary issues⟩

/-- A cancelled report prints nothing. -/
def announce (console : Console) (tree : FileTree) : Announcement → Printed
  | .waiting =>
      if console.quiet || console.format = .json then .nothing else ⟨"", "   Analyzing...\n"⟩
  | .final (.resolved issues) => console.report tree issues
  | .final .cancelled => .nothing
  | .final (.errored error) => ⟨"", "error: " ++ error.describe ++ "\n"⟩

end Console

end Reanalysis
