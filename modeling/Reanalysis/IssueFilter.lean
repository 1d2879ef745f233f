/-
Which issues of a report are published. The test looks at each issue alone, so
filtering keeps the order of a report.
-/

import Reanalysis.Config
import Reanalysis.Issue

namespace Reanalysis

/-- Without included paths, all paths are. -/
structure IssueFilter where
  included : List SourcePath
  excluded : List SourcePath
  excludedCodes : List String
  leastSeverity : Severity
deriving DecidableEq, Repr

namespace IssueFilter

def keepAll : IssueFilter := ⟨[], [], [], .warning⟩

def ofTable (table : IssuesTable) : IssueFilter :=
  { included := table.included.map SourcePath.mk
    excluded := table.excluded.map SourcePath.mk
    excludedCodes := table.excludedCodes
    leastSeverity := if table.leastSeverity = some "error" then .error else .warning }

def keeps (filter : IssueFilter) (issue : Issue) : Bool :=
  issue.severity.atLeast filter.leastSeverity && !filter.excludedCodes.contains issue.code &&
    !filter.excluded.any issue.file.startsWith &&
    (filter.included.isEmpty || filter.included.any issue.file.startsWith)

def apply (filter : IssueFilter) (issues : List Issue) : List Issue := issues.filter filter.keeps

end IssueFilter

end Reanalysis
