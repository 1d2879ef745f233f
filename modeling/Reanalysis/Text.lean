/-
Cutting text: at a mark, into lines, and free of surrounding blanks.
-/

namespace Reanalysis.Text

/-- Cuts a text at every occurrence of a mark, which is dropped; never empty. -/
def pieces (mark : Char) (chars : List Char) : List (List Char) :=
  let step := fun (state : List Char × List (List Char)) (char : Char) =>
    if char = mark then ([], state.1.reverse :: state.2) else (char :: state.1, state.2)
  let last := chars.foldl step ([], [])
  (last.1.reverse :: last.2).reverse

def dropReturn (line : List Char) : List Char :=
  if line.getLast? = some '\r' then line.dropLast else line

/-- The lines of a text. A line ends with its line feed, before which one carriage
return is dropped; a last line without a line feed stands as it is, unless empty. -/
def lines (text : String) : List (List Char) :=
  let cut := pieces '\n' text.toList
  let last := cut.getLastD []
  cut.dropLast.map dropReturn ++ (if last.isEmpty then [] else [last])

/-- The characters with the property White_Space. -/
def isBlank (char : Char) : Bool :=
  let code := char.toNat
  (0x09 ≤ code && code ≤ 0x0D) || code == 0x20 || code == 0x85 || code == 0xA0 ||
    code == 0x1680 || (0x2000 ≤ code && code ≤ 0x200A) || code == 0x2028 || code == 0x2029 ||
    code == 0x202F || code == 0x205F || code == 0x3000

def trim (chars : List Char) : List Char :=
  ((chars.dropWhile isBlank).reverse.dropWhile isBlank).reverse

end Reanalysis.Text
