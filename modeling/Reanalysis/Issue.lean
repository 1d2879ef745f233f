/-
Findings of the analysis engines, their order and their counts.
-/

import Reanalysis.SourcePath

namespace Reanalysis

inductive Severity where
  | warning
  | error
deriving DecidableEq, Repr

namespace Severity

def all : List Severity := [.warning, .error]

def name : Severity → String
  | .warning => "warning"
  | .error => "error"

def ofName? (text : String) : Option Severity := all.find? (fun severity => severity.name == text)

def atLeast : Severity → Severity → Bool
  | .error, _ => true
  | .warning, least => least = .warning

end Severity

inductive EngineFamily where
  | typeCheck
  | lint
deriving DecidableEq, Repr

namespace EngineFamily

def all : List EngineFamily := [.typeCheck, .lint]

def name : EngineFamily → String
  | .typeCheck => "type-check"
  | .lint => "lint"

def ofName? (text : String) : Option EngineFamily := all.find? (fun source => source.name == text)

end EngineFamily

/-- A finding at a position in a file; lines and columns count from one. -/
structure Issue where
  file : SourcePath
  line : UInt32
  column : UInt32
  severity : Severity
  code : String
  message : String
  source : EngineFamily
deriving DecidableEq, Repr

namespace Issue

def order (left right : Issue) : Ordering :=
  (compare left.file right.file).then
    ((compare left.line right.line).then (compare left.column right.column))

/-- Issues at one position keep the order they came in. -/
def sort (issues : List Issue) : List Issue :=
  issues.mergeSort (fun left right => (left.order right).isLE)

end Issue

structure Tally where
  errors : Nat
  warnings : Nat
deriving DecidableEq, Repr

namespace Tally

def ofIssues (issues : List Issue) : Tally :=
  { errors := issues.countP (fun issue => issue.severity = .error)
    warnings := issues.countP (fun issue => issue.severity = .warning) }

def hasErrors (summary : Tally) : Bool := summary.errors > 0

end Tally

end Reanalysis
