/-
Reading structured data from text. Every reader returns what is left of its
input together with the fact that this is shorter, which is what the recursion
rests on.
-/

import Reanalysis.Json.Value

namespace Reanalysis.Json.Reader

/-- What is left of an input from which at least one character was read. -/
abbrev Rest (input : List Char) := { rest : List Char // rest.length < input.length }

def isBlank (char : Char) : Bool :=
  char = ' ' || char = '\n' || char = '\t' || char = '\r'

def skipBlanks (input : List Char) : List Char := input.dropWhile isBlank

theorem skipBlanks_length_le (input : List Char) : (skipBlanks input).length ≤ input.length :=
  (List.dropWhile_sublist isBlank).length_le

structure Numeral where
  negative : Bool
  whole : List Char
  fraction : Option (List Char)
  exponent : Option (Bool × List Char)

def digitOf (char : Char) : Nat := char.toNat - '0'.toNat

/-- Appends digits for as long as the number fits in 64 bits; the rest is returned. -/
def gather (significand : Nat) : List Char → Nat × List Char
  | [] => (significand, [])
  | char :: rest =>
      let longer := significand * 10 + digitOf char
      if longer < Nat.pow 2 64 then gather longer rest else (significand, char :: rest)

def natural (digits : List Char) : Nat :=
  digits.foldl (fun value char => value * 10 + digitOf char) 0

def signed (negative : Bool) (number : Binary64) : Number :=
  .double (if negative then number.negate else number)

/-- Whole numbers of 64 bits stay whole, except minus zero. All others are doubles: the
significand in 64 bits, then scaled by the power of ten. -/
def Numeral.value? (numeral : Numeral) : Option Number :=
  let (significand, extra) := gather 0 numeral.whole
  match numeral.fraction, numeral.exponent, extra with
  | none, none, [] =>
      if numeral.negative then
        if significand = 0 ∨ Nat.pow 2 63 < significand then
          (Binary64.ofNat significand).map (signed true)
        else some (.integer (-(significand : Int)))
      else some (.integer significand)
  | fraction, exponent, extra =>
      let places := fraction.getD []
      let (full, dropped) := gather significand places
      let shift : Int := (extra.length : Int) - ((places.length - dropped.length : Nat) : Int)
      let power : Int :=
        match exponent with
        | none => 0
        | some (below, digits) => if below then -(natural digits : Int) else natural digits
      ((Binary64.ofNat full).bind (fun number => number.scale (shift + power))).map
        (signed numeral.negative)

def digits (input : List Char) : List Char × List Char :=
  (input.takeWhile Char.isDigit, input.dropWhile Char.isDigit)

theorem digits_length_le (input : List Char) :
    (digits input).2.length ≤ input.length :=
  (List.dropWhile_sublist Char.isDigit).length_le

def fraction (input : List Char) :
    Option (Option (List Char) × { rest : List Char // rest.length ≤ input.length }) :=
  match input with
  | '.' :: rest =>
      let found := digits rest
      if found.1.isEmpty then none
      else some (some found.1, ⟨found.2, by
        have bound : found.2.length ≤ rest.length := digits_length_le rest
        simp only [List.length_cons]; omega⟩)
  | other => some (none, ⟨other, Nat.le_refl _⟩)

def exponentSign (input : List Char) :
    Bool × { rest : List Char // rest.length ≤ input.length } :=
  match input with
  | '+' :: rest => (false, ⟨rest, Nat.le_succ _⟩)
  | '-' :: rest => (true, ⟨rest, Nat.le_succ _⟩)
  | other => (false, ⟨other, Nat.le_refl _⟩)

def exponent (input : List Char) :
    Option (Option (Bool × List Char) × { rest : List Char // rest.length ≤ input.length }) :=
  match input with
  | [] => some (none, ⟨[], Nat.le_refl _⟩)
  | char :: rest =>
      if char = 'e' ∨ char = 'E' then
        let (below, ⟨after, shorter⟩) := exponentSign rest
        let found := digits after
        if found.1.isEmpty then none
        else some (some (below, found.1), ⟨found.2, by
          have bound : found.2.length ≤ after.length := digits_length_le after
          simp only [List.length_cons]; omega⟩)
      else some (none, ⟨char :: rest, Nat.le_refl _⟩)

/-- A number without its sign. No digit follows a leading zero. -/
def unsignedNumeral (negative : Bool) (input : List Char) :
    Option (Numeral × Rest input) :=
  match input with
  | [] => none
  | first :: rest =>
      if first.isDigit then
        let more := if first = '0' then ([], rest) else digits rest
        have bound : more.2.length ≤ rest.length := by
          simp only [more]
          split
          · exact Nat.le_refl _
          · exact digits_length_le rest
        if first = '0' ∧ rest.head?.any Char.isDigit then none
        else
          match fraction more.2 with
          | none => none
          | some (places, ⟨afterPlaces, first_le⟩) =>
              match exponent afterPlaces with
              | none => none
              | some (power, ⟨afterPower, second_le⟩) =>
                  some (⟨negative, first :: more.1, places, power⟩,
                    ⟨afterPower, by simp only [List.length_cons]; omega⟩)
      else none

def numeral (input : List Char) : Option (Numeral × Rest input) :=
  match input with
  | '-' :: rest =>
      (unsignedNumeral true rest).map
        (fun (found, ⟨left, shorter⟩) => (found, ⟨left, Nat.lt_succ_of_lt shorter⟩))
  | other => unsignedNumeral false other

/-! ### Strings -/

/-- A character of a string as written: itself, or the number of a UTF-16 unit. -/
inductive Piece where
  | char (value : Char)
  | unit (code : Nat)

def hexDigit? (char : Char) : Option Nat :=
  if char.isDigit then some (char.toNat - '0'.toNat)
  else if 'a' ≤ char ∧ char ≤ 'f' then some (char.toNat - 'a'.toNat + 10)
  else if 'A' ≤ char ∧ char ≤ 'F' then some (char.toNat - 'A'.toNat + 10)
  else none

def hexUnit? (first second third fourth : Char) : Option Nat := do
  let a ← hexDigit? first
  let b ← hexDigit? second
  let c ← hexDigit? third
  let d ← hexDigit? fourth
  pure (((a * 16 + b) * 16 + c) * 16 + d)

def escaped? : Char → Option Char
  | '"' => some '"'
  | '\\' => some '\\'
  | '/' => some '/'
  | 'b' => some '\x08'
  | 'f' => some '\x0c'
  | 'n' => some '\n'
  | 'r' => some '\r'
  | 't' => some '\t'
  | _ => none

/-- The rest of a string after its opening quote, in reverse. -/
def pieces (read : List Piece) : (input : List Char) → Option (List Piece × Rest input)
  | [] => none
  | '"' :: rest => some (read, ⟨rest, Nat.lt_succ_self _⟩)
  | '\\' :: 'u' :: first :: second :: third :: fourth :: rest =>
      match hexUnit? first second third fourth with
      | none => none
      | some code =>
          match pieces (.unit code :: read) rest with
          | none => none
          | some (found, ⟨left, shorter⟩) =>
              some (found, ⟨left, by simp only [List.length_cons]; omega⟩)
  | '\\' :: char :: rest =>
      match escaped? char with
      | none => none
      | some value =>
          match pieces (.char value :: read) rest with
          | none => none
          | some (found, ⟨left, shorter⟩) =>
              some (found, ⟨left, by simp only [List.length_cons]; omega⟩)
  | char :: rest =>
      if char < ' ' ∨ char = '\\' then none
      else
        match pieces (.char char :: read) rest with
        | none => none
        | some (found, ⟨left, shorter⟩) => some (found, ⟨left, Nat.lt_succ_of_lt shorter⟩)

def isHigh (code : Nat) : Bool := 0xD800 ≤ code && code < 0xDC00

def isLow (code : Nat) : Bool := 0xDC00 ≤ code && code < 0xE000

/-- Joins reversed pieces into characters; a surrogate must stand in a pair. -/
def joinPieces (chars : List Char) : List Piece → Option (List Char)
  | [] => some chars
  | .char value :: rest => joinPieces (value :: chars) rest
  | .unit low :: .unit high :: rest =>
      if isLow low then
        if isHigh high then
          joinPieces (Char.ofNat (0x10000 + (high - 0xD800) * 0x400 + (low - 0xDC00)) :: chars)
            rest
        else none
      else if isHigh low then none
      else joinPieces (Char.ofNat low :: chars) (.unit high :: rest)
  | .unit code :: rest =>
      if isHigh code || isLow code then none else joinPieces (Char.ofNat code :: chars) rest

def text (input : List Char) : Option (Option String × Rest input) :=
  (pieces [] input).map fun (read, rest) => ((joinPieces [] read).map String.ofList, rest)

def front (input : List Char) : Option (Char × Rest input) :=
  match skipBlanks input, skipBlanks_length_le input with
  | [], _ => none
  | first :: rest, bound => some (first, ⟨rest, bound⟩)

def word (expected : List Char) (document : Document) (first : Char)
    (rest : List Char) : Option (Document × Rest (first :: rest)) :=
  if expected.isPrefixOf rest then
    some (document, ⟨rest.drop expected.length, by
      simp only [List.length_drop, List.length_cons]; omega⟩)
  else none

mutual

def document (input : List Char) : Option (Document × Rest input) :=
  match front input with
  | none => none
  | some (first, ⟨rest, bound⟩) =>
      match first with
      | '[' =>
          match items [] true rest with
          | none => none
          | some (found, ⟨left, shorter⟩) => some (.array found, ⟨left, by omega⟩)
      | '\x7b' =>
          match fields [] true rest with
          | none => none
          | some (found, ⟨left, shorter⟩) => some (.object found, ⟨left, by omega⟩)
      | '"' =>
          match text rest with
          | none => none
          | some (found, ⟨left, shorter⟩) => some (.string found, ⟨left, by omega⟩)
      | other =>
          let leaf :=
            if other = 'n' then word ['u', 'l', 'l'] .null other rest
            else if other = 't' then word ['r', 'u', 'e'] (.bool true) other rest
            else if other = 'f' then word ['a', 'l', 's', 'e'] (.bool false) other rest
            else (numeral (other :: rest)).map
              (fun (found, left) => (Document.number found.value?, left))
          leaf.map fun (found, ⟨left, shorter⟩) =>
            (found, ⟨left, by simp only [List.length_cons] at shorter; omega⟩)
termination_by 3 * input.length
decreasing_by all_goals omega

/-- Reads the items of an array up to its closing bracket; `fresh` before the first. -/
def items (read : List Document) (fresh : Bool) (input : List Char) :
    Option (List Document × Rest input) :=
  match front input with
  | none => none
  | some (first, ⟨rest, bound⟩) =>
      if first = ']' then some (read.reverse, ⟨rest, bound⟩)
      else
        let start : Option { start : List Char // start.length ≤ input.length } :=
          if fresh then some ⟨input, Nat.le_refl _⟩
          else if first = ',' then some ⟨rest, Nat.le_of_lt bound⟩
          else none
        match start with
        | none => none
        | some ⟨start, within⟩ =>
            match document start with
            | none => none
            | some (item, ⟨left, shorter⟩) =>
                match items (item :: read) false left with
                | none => none
                | some (found, ⟨after, less⟩) => some (found, ⟨after, by omega⟩)
termination_by 3 * input.length + 1
decreasing_by all_goals omega

def fields (read : List (Option String × Document)) (fresh : Bool)
    (input : List Char) : Option (List (Option String × Document) × Rest input) :=
  match front input with
  | none => none
  | some (first, ⟨rest, bound⟩) =>
      if first = '\x7d' then some (read.reverse, ⟨rest, bound⟩)
      else
        let start : Option { start : List Char // start.length ≤ input.length } :=
          if fresh then some ⟨input, Nat.le_refl _⟩
          else if first = ',' then some ⟨rest, Nat.le_of_lt bound⟩
          else none
        match start with
        | none => none
        | some ⟨start, within⟩ =>
            match field start with
            | none => none
            | some (entry, ⟨left, shorter⟩) =>
                match fields (entry :: read) false left with
                | none => none
                | some (found, ⟨after, less⟩) => some (found, ⟨after, by omega⟩)
termination_by 3 * input.length + 2
decreasing_by all_goals omega

def field (input : List Char) :
    Option ((Option String × Document) × Rest input) :=
  match front input with
  | none => none
  | some (first, ⟨rest, bound⟩) =>
      if first = '"' then
        match text rest with
        | none => none
        | some (key, ⟨afterKey, keyShorter⟩) =>
            match front afterKey with
            | none => none
            | some (colon, ⟨afterColon, colonBound⟩) =>
                if colon = ':' then
                  match document afterColon with
                  | none => none
                  | some (value, ⟨left, shorter⟩) => some ((key, value), ⟨left, by omega⟩)
                else none
      else none
termination_by 3 * input.length + 1
decreasing_by all_goals omega

end

/-- Reads a whole text: one value, and nothing but blanks around it. -/
def whole (input : List Char) : Option Document :=
  match document input with
  | none => none
  | some (found, ⟨left, _⟩) => if (skipBlanks left).isEmpty then some found else none

end Reanalysis.Json.Reader

namespace Reanalysis

def Document.read (text : String) : Option Document := Json.Reader.whole text.toList

def Json.read (text : String) : Option Json :=
  (Document.read text).bind (Document.value? Document.nestingLimit)

end Reanalysis
