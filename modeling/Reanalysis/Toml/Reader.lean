/-
Reading TOML 1.0 into a document. Whole numbers have 64 bits; dates and times are
records with one field of their own, so that they pass for no other value.
-/

import Reanalysis.Text
import Reanalysis.Toml.Table

namespace Reanalysis.Toml

structure Input where
  chars : List Char
  left : Nat
  left_eq : left = chars.length

namespace Input

def ofChars (chars : List Char) : Input := ⟨chars, chars.length, rfl⟩

def drop (input : Input) (count : Nat) : Input :=
  { chars := input.chars.drop count
    left := input.left - count
    left_eq := by rw [List.length_drop, input.left_eq] }

end Input

/-- A reader takes something from the front of a text, or fails and takes nothing. -/
abbrev Reader (α : Type) := StateT Input Option α

namespace Reader

def next (accept : Char → Bool) : Reader Char := fun input =>
  match input.chars with
  | [] => none
  | char :: _ => if accept char then some (char, input.drop 1) else none

def just (char : Char) : Reader Unit := do let _ ← next (· = char)

def word (chars : List Char) : Reader Unit := fun input =>
  if chars.isPrefixOf input.chars then some ((), input.drop chars.length) else none

def run (accept : Char → Bool) : Reader (List Char) := fun input =>
  let taken := input.chars.takeWhile accept
  some (taken, input.drop taken.length)

def peek : Reader (Option Char) := fun input => some (input.chars.head?, input)

def atEnd : Reader Unit := fun input => if input.left = 0 then some ((), input) else none

/-- Repeats a reader for as long as it succeeds and takes something. -/
def many {α : Type} (reader : Reader α) : Reader (List α) := fun input => some (loop [] input)
where
  loop (found : List α) (input : Input) : List α × Input :=
    match reader input with
    | none => (found.reverse, input)
    | some (item, rest) =>
        if rest.left < input.left then loop (item :: found) rest else (found.reverse, input)
  termination_by input.left

def separated {α : Type} (item : Reader α) (mark : Reader Unit) : Reader (List α) := do
  let first ← item
  let others ← many (do mark; item)
  pure (first :: others)

end Reader

open Reader

private def isWhite (char : Char) : Bool := char = ' ' || char = '\t'

private def white : Reader Unit := do let _ ← run isWhite

private def newline : Reader Unit := just '\n' <|> word ['\r', '\n']

private def lineEnd : Reader Unit := newline <|> atEnd

private def isPlain (char : Char) : Bool :=
  char = '\t' || (' ' ≤ char && char ≠ '\x7f')

private def comment : Reader Unit := do
  just '#'
  let _ ← run isPlain

private def trailing : Reader Unit := do
  white
  let _ ← optional comment
  lineEnd

private def isDigit (char : Char) : Bool := char.isDigit

/-- Blanks, comments and line ends, between the items of an array. -/
private def gap : Reader Unit := do
  let _ ← many (do
    let _ ← (do let _ ← next isWhite) <|> newline <|> (do comment; newline))

private def hexValue? (char : Char) : Option Nat :=
  if char.isDigit then some (char.toNat - '0'.toNat)
  else if 'a' ≤ char ∧ char ≤ 'f' then some (char.toNat - 'a'.toNat + 10)
  else if 'A' ≤ char ∧ char ≤ 'F' then some (char.toNat - 'A'.toNat + 10)
  else none

private def hexChar (count : Nat) : Reader (List Char) := fun input =>
  let written := input.chars.take count
  match written.mapM hexValue? with
  | none => none
  | some values =>
      let code := values.foldl (fun sum value => sum * 16 + value) 0
      if written.length = count ∧ code.isValidChar then
        some ([Char.ofNat code], input.drop count)
      else none

private def escape : Reader (List Char) := do
  just '\\'
  let kind ← next (fun _ => true)
  match kind with
  | 'b' => pure ['\x08']
  | 't' => pure ['\t']
  | 'n' => pure ['\n']
  | 'f' => pure ['\x0c']
  | 'r' => pure ['\r']
  | '"' => pure ['"']
  | '\\' => pure ['\\']
  | 'u' => hexChar 4
  | 'U' => hexChar 8
  | _ => failure

private def basicChar : Reader (List Char) :=
  (do pure [← next (fun char => isPlain char && char ≠ '"' && char ≠ '\\')]) <|> escape

private def basicString : Reader String := do
  just '"'
  let parts ← many basicChar
  just '"'
  pure (String.ofList parts.flatten)

private def literalString : Reader String := do
  just '\''
  let chars ← run (fun char => isPlain char && char ≠ '\'')
  just '\''
  pure (String.ofList chars)

/-- A backslash at the end of a line drops it and all blanks up to the next character. -/
private def lineFold : Reader (List Char) := do
  just '\\'
  white
  newline
  let _ ← many ((do let _ ← next isWhite) <|> newline)
  pure []

/-- At most two quotes that do not end a string of several lines. -/
private def innerQuotes (quote : Char) : Reader (List Char) := fun input =>
  let count := (input.chars.takeWhile (· = quote)).length
  if count = 0 ∨ (3 ≤ count ∧ count ≠ 4 ∧ count ≠ 5) then none
  else
    let inner := if count < 3 then count else count - 3
    some (List.replicate inner quote, input.drop inner)

private def manyLines (quote : Char) (content : Reader (List Char)) : Reader String := do
  word [quote, quote, quote]
  let _ ← optional newline
  let parts ← many (content <|> (do newline; pure ['\n']) <|> innerQuotes quote)
  word [quote, quote, quote]
  pure (String.ofList parts.flatten)

private def string : Reader String :=
  manyLines '"' (lineFold <|> basicChar) <|>
    manyLines '\'' (do pure [← next (fun char => isPlain char && char ≠ '\'')]) <|>
    basicString <|> literalString

/-! ### Numbers -/

private def digitRun (accept : Char → Bool) : Reader (List Char) := do
  let first ← next accept
  let others ← many ((next accept) <|> (do just '_'; next accept))
  pure (first :: others)

private def sign : Reader Bool :=
  (do just '-'; pure true) <|> (do just '+'; pure false) <|> pure false

/-- A whole number in decimal: no digit follows a leading zero. -/
private def wholeDigits : Reader (List Char) :=
  (do just '0'; pure ['0']) <|> digitRun isDigit

private def valueOf (base : Nat) (digits : List Char) : Nat :=
  digits.foldl (fun sum digit => sum * base + (hexValue? digit).getD 0) 0

private def inRange (value : Int) : Reader Document :=
  let bound := Int.ofNat (Nat.pow 2 63)
  if -bound ≤ value ∧ value < bound then pure (.number (some (.integer value))) else failure

private def based (letter : Char) (base : Nat) : Reader Document := do
  word ['0', letter]
  let digits ← digitRun (fun char => (hexValue? char).any (· < base))
  inRange (valueOf base digits)

private def integer : Reader Document :=
  based 'x' 16 <|> based 'o' 8 <|> based 'b' 2 <|> (do
    let negative ← sign
    let digits ← wholeDigits
    let value : Int := valueOf 10 digits
    inRange (if negative then -value else value))

private def exponent : Reader Int := do
  let _ ← next (fun char => char = 'e' || char = 'E')
  let negative ← sign
  let digits ← digitRun isDigit
  let value : Int := valueOf 10 digits
  pure (if negative then -value else value)

private def isFinite (digits : Nat) (exponent : Int) : Bool :=
  let size : Int := (Nat.toDigits 10 digits).length
  if digits = 0 ∨ size + exponent < 300 then true
  else if 310 < size + exponent then false
  else (Binary64.ofRatio (digits * Nat.pow 10 exponent.toNat) (Nat.pow 10 (-exponent).toNat)).isSome

/-- A number with a fraction or an exponent. One that is too large above is refused. -/
private def decimal : Reader Document := do
  let negative ← sign
  let digits ← wholeDigits
  let (fraction, power) ←
    (do pure (([] : List Char), ← exponent)) <|> (do
      just '.'
      let fraction ← digitRun isDigit
      let power ← optional exponent
      pure (fraction, power.getD 0))
  if negative || isFinite (valueOf 10 (digits ++ fraction)) (power - fraction.length) then
    pure (.number none)
  else failure

private def special : Reader Document := do
  let _ ← sign
  word ['i', 'n', 'f'] <|> word ['n', 'a', 'n']
  pure (.number none)

private def digits (count : Nat) : Reader Nat := fun input =>
  let written := input.chars.take count
  if written.length = count ∧ written.all isDigit then
    some (valueOf 10 written, input.drop count)
  else none

private def within (least greatest : Nat) (reader : Reader Nat) : Reader Nat := do
  let value ← reader
  if least ≤ value ∧ value ≤ greatest then pure value else failure

private def daysIn (year month : Nat) : Nat :=
  if month = 2 then
    if year % 4 = 0 ∧ (year % 100 ≠ 0 ∨ year % 400 = 0) then 29 else 28
  else if [4, 6, 9, 11].contains month then 30
  else 31

private def date : Reader Unit := do
  let year ← digits 4
  just '-'
  let month ← within 1 12 (digits 2)
  just '-'
  let _ ← within 1 (daysIn year month) (digits 2)

private def time : Reader Unit := do
  let _ ← within 0 23 (digits 2)
  just ':'
  let _ ← within 0 59 (digits 2)
  just ':'
  let _ ← within 0 60 (digits 2)
  let _ ← optional (do just '.'; let _ ← next isDigit; run isDigit)

private def offset : Reader Unit :=
  (do let _ ← next (fun char => char = 'Z' || char = 'z')) <|> (do
    let _ ← next (fun char => char = '+' || char = '-')
    let _ ← within 0 23 (digits 2)
    just ':'
    let _ ← within 0 59 (digits 2))

def momentField : String := "$__toml_private_datetime"

private def moment : Reader Document := do
  (do
    date
    let _ ← optional (do
      let _ ← next (fun char => char = 'T' || char = 't' || char = ' ')
      time
      optional offset)) <|> time
  pure (.object [(some momentField, .string (some ""))])

private def isBare (char : Char) : Bool := char.isAlphanum || char = '_' || char = '-'

private def bareKey : Reader String := do
  let first ← next isBare
  let others ← run isBare
  pure (String.ofList (first :: others))

/-- How deep keys, arrays and inline tables may nest, less one. -/
def depthLimit : Nat := 79

/-- The parts of a dotted key, with blanks allowed around each. -/
private def key : Reader (List String) := do
  let parts ← separated
    (do
      white
      let part ← basicString <|> literalString <|> bareKey
      white
      pure part)
    (just '.')
  if parts.length ≤ depthLimit then pure parts else failure

/-- Parts of a key before the last, the last, and the value. -/
private def entry (value : Reader Document) : Reader (List String × String × Document) := do
  let path ← key
  just '='
  white
  let found ← value
  match path.getLast? with
  | none => failure
  | some last => pure (path.dropLast, last, found)

private def arrayOf (value : Reader Document) : Reader Document := do
  just '['
  let items ← optional (separated (do gap; let item ← value; gap; pure item) (just ','))
  let _ ← if items.isSome then optional (just ',') else pure none
  gap
  just ']'
  pure (.array (items.getD []))

private def inlineTable (value : Reader Document) : Reader Document := do
  just '\x7b'
  white
  let entries ← optional (separated (do let found ← entry value; white; pure found) (just ','))
  white
  just '\x7d'
  let built := (entries.getD []).foldlM
    (fun (table : Entries) (path, last, document) => table.set path last document) []
  match built with
  | none => failure
  | some table => pure table.document

private def leaf : Reader Document :=
  (do pure (.string (some (← string)))) <|>
    (do word ['t', 'r', 'u', 'e']; pure (.bool true)) <|>
    (do word ['f', 'a', 'l', 's', 'e']; pure (.bool false)) <|>
    moment <|> decimal <|> special <|> integer

private def value : Nat → Reader Document
  | 0 => leaf
  | depth + 1 => leaf <|> arrayOf (value depth) <|> inlineTable (value depth)

inductive Statement where
  | blank
  | header (path : List String)
  | member (path : List String)
  | entry (path : List String) (key : String) (document : Document)

private def header : Reader Statement :=
  (do
    word ['[', '[']
    let path ← key
    word [']', ']']
    trailing
    pure (.member path)) <|> (do
    just '['
    let path ← key
    just ']'
    trailing
    pure (.header path))

private def statement : Reader Statement := do
  match ← peek with
  | some '#' => do comment; lineEnd; pure .blank
  | some '\n' => do newline; pure .blank
  | some '\r' => do newline; pure .blank
  | some '[' => header
  | _ => do
      let (path, last, document) ← entry (value depthLimit)
      trailing
      pure (.entry path last document)

private def statements : Reader (List Statement) := do
  white
  let found ← many (do let line ← statement; white; pure line)
  atEnd
  pure found

def Statement.apply (sections : Sections) : Statement → Option Sections
  | .blank => some sections
  | .header path => sections.openTable path
  | .member path => sections.openMember path
  | .entry path key document => sections.set path key document

/-- The table that a text describes. A byte order mark in front is passed over. -/
def read (text : String) : Option Document := do
  let chars := text.toList
  let body := if chars.head? = some '\uFEFF' then chars.drop 1 else chars
  let (found, _) ← statements (Input.ofChars body)
  let last ← found.foldlM Statement.apply Sections.start
  let entries ← last.finish
  pure entries.document

end Reanalysis.Toml
