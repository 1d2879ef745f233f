/-
The balance of delimiters. A reading from left to right finds the delimiters
that stand in code, passing over comments and literals; a second pass matches
them with each other and reports what does not fit.
-/

import Reanalysis.Issue

namespace Reanalysis.Delimiters

/-- What the text at a point of the reading is part of. -/
inductive Region where
  | code
  | lineComment
  | blockComment
  | literal (quote : Char)
deriving DecidableEq, Repr

/-- Line comments and quoted strings end with their line. -/
def Region.nextLine : Region → Region
  | .lineComment => .code
  | .literal quote => if quote = '\x60' then .literal quote else .code
  | region => region

structure Delimiter where
  char : Char
  line : UInt32
  column : UInt32
deriving DecidableEq, Repr

def isOpener (char : Char) : Bool := char = '(' || char = '[' || char = '\x7b'

def isCloser (char : Char) : Bool := char = ')' || char = ']' || char = '\x7d'

def isDelimiter (char : Char) : Bool := isOpener char || isCloser char

def isQuote (char : Char) : Bool := char = '"' || char = '\'' || char = '\x60'

/-- Collects delimiters in reverse; `line` and `column` are those of the character before. -/
def scan (found : List Delimiter) (region : Region) (line column : UInt32) :
    List Char → List Delimiter
  | [] => found
  | '\n' :: rest => scan found region.nextLine (line + 1) 0 rest
  | char :: rest =>
      let here := column + 1
      match region with
      | .lineComment => scan found .lineComment line here rest
      | .blockComment =>
          match char, rest with
          | '*', '/' :: after => scan found .code line (here + 1) after
          | _, rest => scan found .blockComment line here rest
      | .literal quote =>
          if char = '\\' then
            match rest with
            | [] => found
            | next :: after =>
                if next = '\n' then scan found (.literal quote) line here (next :: after)
                else scan found (.literal quote) line (here + 1) after
          else if char = quote then scan found .code line here rest
          else scan found (.literal quote) line here rest
      | .code =>
          match char, rest with
          | '/', '/' :: after => scan found .lineComment line here ('/' :: after)
          | '/', '*' :: after => scan found .blockComment line (here + 1) after
          | char, rest =>
              if isQuote char then scan found (.literal char) line here rest
              else if isDelimiter char then
                scan (⟨char, line, here⟩ :: found) .code line here rest
              else scan found .code line here rest

def inCode (text : String) : List Delimiter := (scan [] .code 1 0 text.toList).reverse

def closerOf (opener : Char) : Char :=
  if opener = '(' then ')' else if opener = '[' then ']' else '\x7d'

inductive Defect where
  | unclosed (opener : Delimiter)
  | unexpected (closer : Delimiter)
  | mismatched (opener closer : Delimiter)
deriving DecidableEq, Repr

/-- The openers that wait for their closer, the innermost first, and the defects found so
far, the last first. -/
structure Matching where
  waiting : List Delimiter
  defects : List Defect

def Matching.step (state : Matching) (delimiter : Delimiter) : Matching :=
  if isOpener delimiter.char then { state with waiting := delimiter :: state.waiting }
  else
    match state.waiting with
    | [] => { state with defects := .unexpected delimiter :: state.defects }
    | opener :: outer =>
        if closerOf opener.char = delimiter.char then { state with waiting := outer }
        else ⟨outer, .mismatched opener delimiter :: state.defects⟩

/-- Closers that do not fit in the order of the text, then the openers left open. -/
def defects (delimiters : List Delimiter) : List Defect :=
  let last := delimiters.foldl Matching.step ⟨[], []⟩
  last.defects.reverse ++ last.waiting.reverse.map .unclosed

def single (char : Char) : String := String.ofList [char]

def Defect.code : Defect → String
  | .unclosed _ => "E001"
  | .unexpected _ => "E002"
  | .mismatched _ _ => "E003"

def Defect.place : Defect → Delimiter
  | .unclosed opener => opener
  | .unexpected closer => closer
  | .mismatched _ closer => closer

def Defect.message : Defect → String
  | .unclosed opener => "unclosed delimiter '" ++ single opener.char ++ "'"
  | .unexpected closer => "unexpected closing delimiter '" ++ single closer.char ++ "'"
  | .mismatched opener closer =>
      "mismatched closing delimiter: expected '" ++ single (closerOf opener.char) ++
        "' to close '" ++ single opener.char ++ "' from " ++ toString opener.line.toNat ++ ":" ++
          toString opener.column.toNat ++ ", found '" ++ single closer.char ++ "'"

def Defect.toIssue (file : SourcePath) (defect : Defect) : Issue :=
  { file := file
    line := defect.place.line
    column := defect.place.column
    severity := .error
    code := defect.code
    message := defect.message
    source := .typeCheck }

def analyze (file : SourcePath) (text : String) : List Issue :=
  (defects (inCode text)).map (Defect.toIssue file)

end Reanalysis.Delimiters
