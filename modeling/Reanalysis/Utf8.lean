/-
Reading bytes as UTF-8. Two readings share one step: the strict one stops at the
first ill-formed sequence and says where it is, the lenient one writes a
replacement character for each ill-formed sequence.
-/

namespace Reanalysis.Utf8

/-- Where a strict reading fails: the start of the sequence, and its length unless the
bytes merely ended too early. -/
structure Fault where
  index : Nat
  length : Option Nat
deriving DecidableEq, Repr

def Fault.message (fault : Fault) : String :=
  match fault.length with
  | some length =>
      "invalid utf-8 sequence of " ++ toString length ++ " bytes from index " ++
        toString fault.index
  | none => "incomplete utf-8 byte sequence from index " ++ toString fault.index

/-- What one byte and the bytes after it begin with. Each case says how many of the later
bytes belong to it. -/
inductive Step where
  | char (value : Char) (more : Nat)
  | invalid (more : Nat)
  | truncated

def isContinuation (byte : UInt8) : Bool := 0x80 ≤ byte && byte ≤ 0xBF

def joined (lead : Nat) (tail : List UInt8) : Char :=
  Char.ofNat (tail.foldl (fun code byte => code * 64 + (byte.toNat - 0x80)) lead)

/-- Reads the bytes that must follow a lead byte; only the first has bounds of its own. -/
def follow (lead count : Nat) (low high : UInt8) (rest : List UInt8) : Step :=
  match rest with
  | [] => .truncated
  | second :: others =>
      if second < low || high < second then .invalid 0
      else
        let tail := (others.take (count - 1)).takeWhile isContinuation
        if tail.length = count - 1 then .char (joined lead (second :: tail)) count
        else if tail.length = others.length then .truncated
        else .invalid (tail.length + 1)

def step (first : UInt8) (rest : List UInt8) : Step :=
  if first < 0x80 then .char (Char.ofNat first.toNat) 0
  else if first < 0xC2 then .invalid 0
  else if first < 0xE0 then follow (first.toNat - 0xC0) 1 0x80 0xBF rest
  else if first < 0xF0 then
    follow (first.toNat - 0xE0) 2 (if first = 0xE0 then 0xA0 else 0x80)
      (if first = 0xED then 0x9F else 0xBF) rest
  else if first < 0xF5 then
    follow (first.toNat - 0xF0) 3 (if first = 0xF0 then 0x90 else 0x80)
      (if first = 0xF4 then 0x8F else 0xBF) rest
  else .invalid 0

def decodeFrom (index : Nat) (read : List Char) : List UInt8 → Except Fault (List Char)
  | [] => .ok read.reverse
  | first :: rest =>
      match step first rest with
      | .char value more => decodeFrom (index + 1 + more) (value :: read) (rest.drop more)
      | .invalid more => .error ⟨index, some (more + 1)⟩
      | .truncated => .error ⟨index, none⟩
termination_by bytes => bytes.length
decreasing_by simp only [List.length_drop, List.length_cons]; omega

def decode (bytes : List UInt8) : Except Fault String :=
  (decodeFrom 0 [] bytes).map String.ofList

def lenientFrom (read : List Char) : List UInt8 → List Char
  | [] => read.reverse
  | first :: rest =>
      match step first rest with
      | .char value more => lenientFrom (value :: read) (rest.drop more)
      | .invalid more => lenientFrom ('\uFFFD' :: read) (rest.drop more)
      | .truncated => ('\uFFFD' :: read).reverse
termination_by bytes => bytes.length
decreasing_by all_goals (simp only [List.length_drop, List.length_cons]; omega)

def lenient (bytes : List UInt8) : String := String.ofList (lenientFrom [] bytes)

def encode (text : String) : List UInt8 := text.toUTF8.toList

end Reanalysis.Utf8
