/-
Rules about single lines. A rule names the lines it objects to, each with a
column and a reason. Rules can be allowed, which silences them, or denied,
which makes what they find an error.
-/

import Reanalysis.Issue
import Reanalysis.Text

namespace Reanalysis

/-- What a rule objects to, before the file and a severity are known. -/
structure Violation where
  line : UInt32
  column : UInt32
  message : String
deriving DecidableEq, Repr

structure LineRule where
  name : String
  severity : Severity
  check : String → List Violation

namespace LineRule

def isIndent (char : Char) : Bool := char = ' ' || char = '\t'

/-- Asks about each line in turn; the answer is the number of characters before the place. -/
def onLines (find : List Char → Option (Nat × String)) (text : String) : List Violation :=
  (Text.lines text).zipIdx.filterMap fun (line, index) =>
    (find line).map fun (before, message) =>
      { line := UInt32.ofNat index + 1, column := UInt32.ofNat before + 1, message := message }

/-- A line without its spaces and tabs at the end. -/
def withoutTail (line : List Char) : List Char := (line.reverse.dropWhile isIndent).reverse

def trailingWhitespace : LineRule :=
  { name := "trailing-whitespace"
    severity := .warning
    check := onLines fun line =>
      let kept := (withoutTail line).length
      if kept = line.length then none else some (kept, "trailing whitespace") }

def maxLineLength (limit : Nat) : LineRule :=
  { name := "max-line-length"
    severity := .warning
    check := onLines fun line =>
      if limit < line.length then
        some (limit, "line is " ++ toString line.length ++
          " characters long, exceeding the limit of " ++ toString limit)
      else none }

def noTabs : LineRule :=
  { name := "no-tabs"
    severity := .warning
    check := onLines fun line =>
      let indent := line.takeWhile isIndent
      if indent.contains '\t' then
        some (indent.idxOf '\t', "tab character used for indentation")
      else none }

def builtIn (limit : Nat) : List LineRule := [trailingWhitespace, maxLineLength limit, noTabs]

end LineRule

/-- The rules in force, in order, with those that are silenced or sharpened. -/
structure LineRules where
  rules : List LineRule
  allowed : List String
  denied : List String

namespace LineRules

def of (allowed denied : List String) (limit : Nat) : LineRules :=
  ⟨LineRule.builtIn limit, allowed, denied⟩

def register (rules : LineRules) (rule : LineRule) : LineRules :=
  { rules with rules := rules.rules ++ [rule] }

def severityOf (rules : LineRules) (rule : LineRule) : Severity :=
  if rules.denied.contains rule.name then .error else rule.severity

def apply (rules : LineRules) (file : SourcePath) (text : String) (rule : LineRule) :
    List Issue :=
  if rules.allowed.contains rule.name then []
  else
    (rule.check text).map fun violation =>
      { file := file
        line := violation.line
        column := violation.column
        severity := rules.severityOf rule
        code := rule.name
        message := violation.message
        source := .lint }

def analyze (rules : LineRules) (file : SourcePath) (text : String) : List Issue :=
  rules.rules.flatMap (rules.apply file text)

end LineRules

end Reanalysis
