/-
Messages in a stream of bytes, one on each line. Blank lines are passed over, and
a line that holds no message does not disturb the lines after it.
-/

import Reanalysis.Text
import Reanalysis.Utf8
import Reanalysis.Wire.Message

namespace Reanalysis.Wire

inductive Line where
  | message (message : Message)
  | malformed
  | undecodable (fault : Utf8.Fault)
deriving Repr

/-- Cuts bytes after each line feed; the last line may lack one, but is never empty. -/
def cutLines (bytes : List UInt8) : List (List UInt8) :=
  let step := fun (state : List UInt8 × List (List UInt8)) (byte : UInt8) =>
    if byte = 0x0A then ([], (byte :: state.1).reverse :: state.2) else (byte :: state.1, state.2)
  let last := bytes.foldl step ([], [])
  (if last.1.isEmpty then last.2 else last.1.reverse :: last.2).reverse

/-- A blank line amounts to nothing. -/
def readLine (bytes : List UInt8) : Option Line :=
  match Utf8.decode bytes with
  | .error fault => some (.undecodable fault)
  | .ok text =>
      let trimmed := Text.trim text.toList
      if trimmed.isEmpty then none
      else
        match Message.read (String.ofList trimmed) with
        | none => some .malformed
        | some message => some (.message message)

def readAll (bytes : List UInt8) : List Line := (cutLines bytes).filterMap readLine

end Reanalysis.Wire
