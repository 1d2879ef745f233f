/-
Lines and columns. A text ends in a certain line, so and so many characters into it, and every
character that is no part of a line's end stands at just that place among the lines of a text
that goes on. Lines and columns are no larger than the lines of the whole text allow.
-/

import Mathlib.Data.List.Induction
import Reanalysis.Proofs.WrittenPath

namespace Reanalysis.Text

/-- The line that a text ends in, counted from one. -/
def lineOf (front : List Char) : Nat := front.count '\n' + 1

/-- How many characters of its last line a text has. -/
def columnOf (front : List Char) : Nat := (front.reverse.takeWhile (· ≠ '\n')).length

variable {front : List Char} {char : Char}

theorem lineOf_feed : lineOf (front ++ ['\n']) = lineOf front + 1 := by
  simp [lineOf]

theorem columnOf_feed : columnOf (front ++ ['\n']) = 0 := by
  simp [columnOf]

theorem lineOf_within (within : char ≠ '\n') : lineOf (front ++ [char]) = lineOf front := by
  simp [lineOf, within]

theorem columnOf_within (within : char ≠ '\n') :
    columnOf (front ++ [char]) = columnOf front + 1 := by
  simp [columnOf, within]

theorem ends_further {more : List Char} (nonempty : more ≠ []) :
    lineOf front < lineOf (front ++ more) ∨
      lineOf front = lineOf (front ++ more) ∧ columnOf front < columnOf (front ++ more) := by
  induction more using List.reverseRecOn with
  | nil => exact absurd rfl nonempty
  | append_singleton more char ih =>
      rw [← List.append_assoc]
      have before : lineOf front < lineOf (front ++ more) ∨
          lineOf front = lineOf (front ++ more) ∧ columnOf front ≤ columnOf (front ++ more) := by
        by_cases first : more = []
        · rw [first, List.append_nil]
          exact .inr ⟨rfl, Nat.le_refl _⟩
        · exact (ih first).imp_right (And.imp_right Nat.le_of_lt)
      by_cases isFeed : char = '\n'
      · rw [isFeed, lineOf_feed]
        omega
      · rw [lineOf_within isFeed, columnOf_within isFeed]
        omega

theorem splitOn_append (front rest : List Char) :
    ∃ above last, above.length + 1 = lineOf front ∧ last.length = columnOf front ∧
      (front ++ rest).splitOn '\n' = above ++ (rest.splitOn '\n').modifyHead (last ++ ·) := by
  induction front using List.reverseRecOn generalizing rest with
  | nil => exact ⟨[], [], rfl, rfl, (congrFun List.modifyHead_id _).symm⟩
  | append_singleton front char ih =>
      obtain ⟨above, last, lines, columns, cut⟩ := ih (char :: rest)
      rw [List.append_assoc, List.singleton_append, cut, List.splitOn_cons_eq_if_modifyHead]
      by_cases isFeed : char = '\n'
      · refine ⟨above ++ [last], [], ?_, ?_, ?_⟩
        · rw [isFeed, lineOf_feed, ← lines, List.length_append, List.length_singleton]
        · rw [isFeed, columnOf_feed, List.length_nil]
        · have unchanged : (rest.splitOn '\n').modifyHead ([] ++ ·) = rest.splitOn '\n' :=
            congrFun List.modifyHead_id (rest.splitOn '\n')
          rw [unchanged, isFeed, BEq.rfl, if_pos rfl, List.modifyHead_cons, List.append_nil,
            List.append_assoc, List.singleton_append]
      · refine ⟨above, last ++ [char], ?_, ?_, ?_⟩
        · rw [lineOf_within isFeed, lines]
        · rw [columnOf_within isFeed, List.length_append, columns, List.length_singleton]
        · simp [isFeed, Function.comp_def]

theorem lines_eq (text : String) :
    lines text = ((text.toList.splitOn '\n').dropLast.map dropReturn) ++
      (if ((text.toList.splitOn '\n').getLastD []).isEmpty then []
        else [(text.toList.splitOn '\n').getLastD []]) := by
  unfold lines
  rw [pieces_eq_splitOn]

theorem length_le_dropReturn (line : List Char) : line.length ≤ (dropReturn line).length + 1 := by
  unfold dropReturn
  split
  · rw [List.length_dropLast]
    omega
  · omega

theorem getElem?_dropReturn {content : List Char} {column : Nat} {char : Char}
    (held : content[column]? = some char) (kept : char ≠ '\r') :
    (dropReturn content)[column]? = some char := by
  unfold dropReturn
  split
  · rename_i returns
    obtain ⟨front, rfl⟩ := List.getLast?_eq_some_iff.mp returns
    rw [List.dropLast_concat]
    rw [List.getElem?_append] at held
    split at held
    · exact held
    · have last : '\r' = char := by
        have single := List.mem_of_getElem? held
        simpa [eq_comm] using single
      exact absurd last.symm kept
  · exact held

variable {text : String} {rest piece : List Char} {above below : List (List Char)}

theorem length_above_le (cut : text.toList.splitOn '\n' = above ++ piece :: below) :
    above.length ≤ (lines text).length := by
  rw [lines_eq, cut, List.length_append, List.length_map, List.length_dropLast,
    List.length_append, List.length_cons]
  omega

theorem line_of_piece (cut : text.toList.splitOn '\n' = above ++ piece :: below)
    (nonempty : piece ≠ []) :
    (lines text)[above.length]? = some piece ∨
      (lines text)[above.length]? = some (dropReturn piece) := by
  rw [lines_eq, cut]
  cases below with
  | nil =>
      left
      have filled : piece.isEmpty = false := by simpa using nonempty
      rw [List.dropLast_concat, List.getLastD_concat, filled, List.getElem?_append_right]
      · simp
      · exact Nat.le_of_eq (List.length_map _)
  | cons next others =>
      right
      rw [List.dropLast_append_of_ne_nil (List.cons_ne_nil _ _), List.dropLast_cons_cons,
        List.map_append, List.append_assoc, List.getElem?_append_right]
      · simp
      · exact Nat.le_of_eq (List.length_map _)

theorem lineOf_le (cut : text.toList = front ++ rest) :
    lineOf front ≤ (lines text).length + 1 := by
  obtain ⟨above, last, lineCount, columnCount, pieces⟩ := splitOn_append front rest
  obtain ⟨first, below, behind⟩ := List.exists_cons_of_ne_nil (List.splitOn_ne_nil '\n' rest)
  rw [behind, List.modifyHead_cons, ← cut] at pieces
  have few := length_above_le pieces
  omega

theorem columnOf_le (limit : Nat) (cut : text.toList = front ++ rest)
    (short : ∀ line ∈ lines text, line.length ≤ limit) : columnOf front ≤ limit + 1 := by
  obtain ⟨above, last, lineCount, columnCount, pieces⟩ := splitOn_append front rest
  obtain ⟨first, below, behind⟩ := List.exists_cons_of_ne_nil (List.splitOn_ne_nil '\n' rest)
  rw [behind, List.modifyHead_cons, ← cut] at pieces
  by_cases empty : last ++ first = []
  · rw [List.append_eq_nil_iff] at empty
    rw [← columnCount, empty.1, List.length_nil]
    omega
  · have whole : columnOf front ≤ (last ++ first).length := by
      rw [List.length_append, columnCount]
      omega
    rcases line_of_piece pieces empty with line | line
    · have bound := short _ (List.mem_of_getElem? line)
      omega
    · have bound := short _ (List.mem_of_getElem? line)
      have returned := length_le_dropReturn (last ++ first)
      omega

theorem stands_in_line {char : Char} (cut : text.toList = front ++ char :: rest)
    (within : char ≠ '\n') (kept : char ≠ '\r') :
    ∃ row column content, lineOf (front ++ [char]) = row + 1 ∧
      columnOf (front ++ [char]) = column + 1 ∧
      (lines text)[row]? = some content ∧ content[column]? = some char := by
  obtain ⟨above, last, lineCount, columnCount, pieces⟩ := splitOn_append front (char :: rest)
  obtain ⟨first, below, behind⟩ := List.exists_cons_of_ne_nil (List.splitOn_ne_nil '\n' rest)
  have opens : (char :: rest).splitOn '\n' = (char :: first) :: below := by
    rw [List.splitOn_cons_eq_if_modifyHead, behind]
    simp [within]
  rw [opens, List.modifyHead_cons, ← cut] at pieces
  have held : (last ++ char :: first)[columnOf front]? = some char := by
    rw [← columnCount, List.getElem?_append_right (Nat.le_refl _)]
    simp
  have place : lineOf (front ++ [char]) = above.length + 1 ∧
      columnOf (front ++ [char]) = columnOf front + 1 :=
    ⟨(lineOf_within within).trans lineCount.symm, columnOf_within within⟩
  rcases line_of_piece pieces (by simp) with line | line
  · exact ⟨above.length, columnOf front, _, place.1, place.2, line, held⟩
  · exact ⟨above.length, columnOf front, _, place.1, place.2, line, getElem?_dropReturn held kept⟩

end Reanalysis.Text
