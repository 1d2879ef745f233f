/-
What the built-in rules find. A text falls into lines at its line feeds. Each rule reports the
lines that it objects to, every one of them and no other, once and in their order, at the
column of the character that it objects to first. The counters hold these numbers as they are,
as long as the text has fewer lines, and fewer characters in each, than a counter can hold.
-/

import Mathlib.Data.List.TakeWhile
import Reanalysis.Engine.LineRules
import Reanalysis.Proofs.IssuePlaces

namespace Reanalysis

open Delimiters (Countable)

namespace Text

/-- How a text falls into lines: at each line feed, which a carriage return before it belongs
to; any other carriage return is part of its line, and so is one at the end of the text. -/
inductive Lined : List Char → List (List Char) → Prop
  | nothing : Lined [] []
  | unended {line : List Char} (nonempty : line ≠ []) (whole : '\n' ∉ line) : Lined line [line]
  | ended {line rest : List Char} {lines : List (List Char)} (whole : '\n' ∉ line)
      (plain : line.getLast? ≠ some '\r') (later : Lined rest lines) :
      Lined (line ++ '\n' :: rest) (line :: lines)
  | returned {line rest : List Char} {lines : List (List Char)} (whole : '\n' ∉ line)
      (later : Lined rest lines) : Lined (line ++ '\r' :: '\n' :: rest) (line :: lines)

def cutLines (chars : List Char) : List (List Char) :=
  (chars.splitOn '\n').dropLast.map dropReturn ++
    (if ((chars.splitOn '\n').getLastD []).isEmpty then [] else [(chars.splitOn '\n').getLastD []])

theorem cutLines_unended {line : List Char} (whole : '\n' ∉ line) :
    cutLines line = if line.isEmpty then [] else [line] := by
  unfold cutLines
  rw [List.splitOn_eq_singleton whole]
  rfl

theorem cutLines_ended {line : List Char} (whole : '\n' ∉ line) (rest : List Char) :
    cutLines (line ++ '\n' :: rest) = dropReturn line :: cutLines rest := by
  unfold cutLines
  obtain ⟨first, others, behind⟩ := List.exists_cons_of_ne_nil (List.splitOn_ne_nil '\n' rest)
  rw [List.splitOn_append_cons_self, List.splitOn_eq_singleton whole, behind,
    List.singleton_append, List.dropLast_cons_cons, List.map_cons, List.cons_append,
    List.getLastD_cons, List.getLastD_cons, List.getLastD_cons]

theorem lined_ended {line rest : List Char} {lines : List (List Char)} (whole : '\n' ∉ line)
    (later : Lined rest lines) : Lined (line ++ '\n' :: rest) (dropReturn line :: lines) := by
  unfold dropReturn
  split
  · rename_i returns
    obtain ⟨front, rfl⟩ := List.getLast?_eq_some_iff.mp returns
    rw [List.dropLast_concat, List.append_assoc, List.singleton_append]
    apply Lined.returned _ later
    intro held
    exact whole (List.mem_append_left _ held)
  · rename_i plain
    exact .ended whole plain later

theorem lined_cutLines (chars : List Char) : Lined chars (cutLines chars) := by
  by_cases whole : '\n' ∈ chars
  · obtain ⟨line, rest, cut, first⟩ := List.eq_append_cons_of_mem whole
    have shorter : rest.length < chars.length := by
      rw [cut, List.length_append, List.length_cons]
      omega
    rw [cut, cutLines_ended first]
    exact lined_ended first (lined_cutLines rest)
  · rw [cutLines_unended whole]
    cases chars with
    | nil => exact .nothing
    | cons char rest => exact .unended (List.cons_ne_nil _ _) whole
termination_by chars.length

theorem Lined.eq_cutLines {chars : List Char} {lines : List (List Char)}
    (lined : Lined chars lines) : lines = cutLines chars := by
  induction lined with
  | nothing => rfl
  | unended nonempty whole =>
      rw [cutLines_unended whole, if_neg (by simpa using nonempty)]
  | ended whole plain later ih =>
      rw [cutLines_ended whole, ← ih, dropReturn, if_neg plain]
  | @returned line rest lines whole later ih =>
      have unbroken : '\n' ∉ line ++ ['\r'] := by simpa using whole
      have cut := cutLines_ended unbroken rest
      rw [List.append_assoc, List.singleton_append] at cut
      rw [cut, ← ih, dropReturn, List.getLast?_concat, if_pos rfl, List.dropLast_concat]

/-- A text falls into its lines, and in no other way. -/
theorem lined_iff (text : String) (rows : List (List Char)) :
    Lined text.toList rows ↔ rows = lines text := by
  have cut : lines text = cutLines text.toList := lines_eq text
  rw [cut]
  constructor
  · intro lined
    exact lined.eq_cutLines
  · rintro rfl
    exact lined_cutLines text.toList

end Text

namespace LineRule

/-- A line cut behind all the spaces and tabs that it begins with. -/
structure Indented (line run rest : List Char) : Prop where
  cut : line = run ++ rest
  blank : ∀ char ∈ run, isIndent char = true
  whole : ∀ char, rest.head? = some char → isIndent char = false

/-- A line cut before all the spaces and tabs that it ends with. -/
structure Trailed (line front run : List Char) : Prop where
  cut : line = front ++ run
  blank : ∀ char ∈ run, isIndent char = true
  whole : ∀ char, front.getLast? = some char → isIndent char = false

theorem indented_takeWhile (line : List Char) :
    Indented line (line.takeWhile isIndent) (line.dropWhile isIndent) where
  cut := List.takeWhile_append_dropWhile.symm
  blank _ member := List.mem_takeWhile_imp member
  whole char first := by
    have stops := List.head?_dropWhile_not isIndent line
    rw [first] at stops
    exact stops

theorem Indented.eq_takeWhile {line run rest : List Char} (indented : Indented line run rest) :
    run = line.takeWhile isIndent := by
  rw [indented.cut, List.takeWhile_append_of_pos indented.blank]
  cases rest with
  | nil => exact (List.append_nil run).symm
  | cons char others =>
      rw [List.takeWhile_cons_of_neg, List.append_nil]
      rw [indented.whole char rfl]
      exact Bool.false_ne_true

theorem trailed_withoutTail (line : List Char) :
    Trailed line (withoutTail line) (line.reverse.takeWhile isIndent).reverse where
  cut := by
    have indented := (indented_takeWhile line.reverse).cut
    rw [withoutTail, ← List.reverse_append, ← indented, List.reverse_reverse]
  blank char member := (indented_takeWhile line.reverse).blank char (List.mem_reverse.mp member)
  whole char last := by
    rw [withoutTail, List.getLast?_reverse] at last
    exact (indented_takeWhile line.reverse).whole char last

theorem withoutTail_length_lt_iff (line : List Char) :
    (withoutTail line).length < line.length ↔
      ∃ char, line.getLast? = some char ∧ isIndent char = true := by
  have trailed := trailed_withoutTail line
  generalize withoutTail line = front at *
  generalize (line.reverse.takeWhile isIndent).reverse = run at *
  rw [trailed.cut, List.length_append]
  cases run using List.reverseRecOn with
  | nil =>
      rw [List.append_nil, List.length_nil]
      constructor
      · intro longer
        omega
      · rintro ⟨char, last, blank⟩
        rw [trailed.whole char last] at blank
        cases blank
  | append_singleton before char =>
      constructor
      · intro _longer
        refine ⟨char, ?_, trailed.blank char (List.mem_append_right _ List.mem_cons_self)⟩
        rw [← List.append_assoc, List.getLast?_concat]
      · intro _blank
        rw [List.length_append, List.length_singleton]
        omega

theorem utf8ByteSize_withoutTail_lt_iff (line : List Char) :
    (String.ofList (withoutTail line)).utf8ByteSize < (String.ofList line).utf8ByteSize ↔
      (withoutTail line).length < line.length := by
  have trailed := trailed_withoutTail line
  generalize withoutTail line = front at *
  generalize (line.reverse.takeWhile isIndent).reverse = run at *
  rw [trailed.cut, String.ofList_append, String.utf8ByteSize_append, List.length_append]
  cases run with
  | nil => simp
  | cons char rest =>
      have filled : 0 < (String.ofList (char :: rest)).utf8ByteSize := by
        rw [String.ofList_cons, String.utf8ByteSize_append, String.utf8ByteSize_singleton]
        exact Nat.add_pos_left char.utf8Size_pos _
      rw [List.length_cons]
      omega

/-! ### What a rule reports -/

/-- What a rule reports of a text: the flagged lines and no others, each once and in order, at a
place inside it, where line and column are counted from one. -/
structure Reports (text : String) (rule : LineRule) (flagged : List Char → Prop)
    (place : List Char → Nat → Prop) (reason : List Char → String) : Prop where
  ascending : (rule.check text).Pairwise fun above below => above.line < below.line
  reported_iff : ∀ row line, (Text.lines text)[row]? = some line →
    ((∃ violation ∈ rule.check text, violation.line.toNat = row + 1) ↔ flagged line)
  placed : ∀ violation ∈ rule.check text, ∃ row line before,
    (Text.lines text)[row]? = some line ∧ violation.line.toNat = row + 1 ∧
      place line before ∧ before < line.length ∧ violation.column.toNat = before + 1 ∧
        violation.message = reason line

structure Finds (find : List Char → Option (Nat × String)) (flagged : List Char → Prop)
    (place : List Char → Nat → Prop) (reason : List Char → String) : Prop where
  isSome_iff : ∀ line, (find line).isSome = true ↔ flagged line
  placed : ∀ line before message, find line = some (before, message) →
    place line before ∧ before < line.length ∧ message = reason line

theorem toNat_counter {number : Nat} (small : number < UInt32.size - 1) :
    (UInt32.ofNat number + 1).toNat = number + 1 := by
  have large : UInt32.size = 2 ^ 32 := rfl
  rw [UInt32.toNat_add, UInt32.toNat_ofNat']
  change (number % 2 ^ 32 + 1) % 2 ^ 32 = number + 1
  omega

theorem mem_onLines {find : List Char → Option (Nat × String)} {text : String}
    {violation : Violation} :
    violation ∈ onLines find text ↔ ∃ row line before message,
      (Text.lines text)[row]? = some line ∧ find line = some (before, message) ∧
        violation = ⟨UInt32.ofNat row + 1, UInt32.ofNat before + 1, message⟩ := by
  unfold onLines
  rw [List.mem_filterMap]
  constructor
  · rintro ⟨⟨line, row⟩, held, taken⟩
    obtain ⟨⟨before, message⟩, found, rfl⟩ := Option.map_eq_some_iff.mp taken
    exact ⟨row, line, before, message, List.mem_zipIdx_iff_getElem?.mp held, found, rfl⟩
  · rintro ⟨row, line, before, message, held, found, rfl⟩
    refine ⟨(line, row), List.mem_zipIdx_iff_getElem?.mpr held, ?_⟩
    dsimp only
    rw [found]
    rfl

variable {find : List Char → Option (Nat × String)} {flagged : List Char → Prop}
  {place : List Char → Nat → Prop} {reason : List Char → String} {text : String}

theorem row_small (countable : Countable text) {row : Nat} {line : List Char}
    (held : (Text.lines text)[row]? = some line) : row < UInt32.size - 1 := by
  obtain ⟨within, _here⟩ := List.getElem?_eq_some_iff.mp held
  exact Nat.lt_trans within countable.lines

theorem onLines_ascending (countable : Countable text) :
    (onLines find text).Pairwise fun above below => above.line < below.line := by
  have inOrder : (Text.lines text).zipIdx.Pairwise fun above below => above.2 < below.2 := by
    rw [← List.pairwise_map, List.zipIdx_map_snd]
    exact List.pairwise_lt_range' 1
  unfold onLines
  rw [List.pairwise_filterMap]
  apply inOrder.imp_of_mem
  intro above below heldAbove heldBelow before first foundFirst second foundSecond
  obtain ⟨_, _, rfl⟩ := Option.map_eq_some_iff.mp foundFirst
  obtain ⟨_, _, rfl⟩ := Option.map_eq_some_iff.mp foundSecond
  rw [UInt32.lt_iff_toNat_lt,
    toNat_counter (row_small countable (List.mem_zipIdx_iff_getElem?.mp heldAbove)),
    toNat_counter (row_small countable (List.mem_zipIdx_iff_getElem?.mp heldBelow))]
  omega

/-- A search in single lines makes a rule that reports what it finds. -/
theorem reports_of_finds {rule : LineRule} (finds : Finds find flagged place reason)
    (countable : Countable text) (asks : rule.check = onLines find) :
    Reports text rule flagged place reason := by
  constructor
  case ascending =>
    rw [asks]
    exact onLines_ascending countable
  case reported_iff =>
    intro row line held
    rw [asks, ← finds.isSome_iff, Option.isSome_iff_exists]
    constructor
    · rintro ⟨violation, member, here⟩
      obtain ⟨otherRow, otherLine, before, message, otherHeld, found, rfl⟩ := mem_onLines.mp member
      rw [toNat_counter (row_small countable otherHeld)] at here
      obtain rfl : otherRow = row := by omega
      obtain rfl : otherLine = line := Option.some.inj (otherHeld.symm.trans held)
      exact ⟨_, found⟩
    · rintro ⟨⟨before, message⟩, found⟩
      refine ⟨_, mem_onLines.mpr ⟨row, line, before, message, held, found, rfl⟩, ?_⟩
      exact toNat_counter (row_small countable held)
  case placed =>
    intro violation member
    rw [asks] at member
    obtain ⟨row, line, before, message, held, found, rfl⟩ := mem_onLines.mp member
    obtain ⟨placed, inside, told⟩ := finds.placed line before message found
    have short := countable.columns line (List.mem_of_getElem? held)
    exact ⟨row, line, before, held, toNat_counter (row_small countable held), placed, inside,
      toNat_counter (Nat.lt_trans inside short), told⟩

def EndsBlank (line : List Char) : Prop :=
  line.getLast? = some ' ' ∨ line.getLast? = some '\t'

/-- So many characters stand before the spaces and tabs that a line ends with. -/
def BlankFrom (line : List Char) (before : Nat) : Prop :=
  ∃ front run, Trailed line front run ∧ before = front.length

/-- A tab among the spaces and tabs that a line begins with. -/
def TabIndented (line : List Char) : Prop :=
  ∃ run rest, Indented line run rest ∧ '\t' ∈ run

/-- So many characters stand before the first tab that a line is indented with. -/
def TabFrom (line : List Char) (before : Nat) : Prop :=
  ∃ front others rest, Indented line (front ++ '\t' :: others) rest ∧ '\t' ∉ front ∧
    before = front.length

theorem endsBlank_iff (line : List Char) :
    EndsBlank line ↔ ∃ char, line.getLast? = some char ∧ isIndent char = true := by
  unfold EndsBlank
  constructor
  · rintro (last | last)
    · exact ⟨_, last, rfl⟩
    · exact ⟨_, last, rfl⟩
  · rintro ⟨char, last, blank⟩
    rw [last]
    simpa [isIndent] using blank

theorem reports_trailingWhitespace (countable : Countable text) :
    Reports text trailingWhitespace EndsBlank BlankFrom fun _ => "trailing whitespace" := by
  have asks : trailingWhitespace.check = onLines fun line =>
      if (withoutTail line).length = line.length then none
      else some ((withoutTail line).length, "trailing whitespace") := rfl
  apply reports_of_finds _ countable asks
  constructor
  case isSome_iff =>
    intro line
    have within := congrArg List.length (trailed_withoutTail line).cut
    rw [List.length_append] at within
    rw [endsBlank_iff, ← withoutTail_length_lt_iff]
    split
    · simp only [Option.isSome_none, Bool.false_eq_true, false_iff]
      omega
    · simp only [Option.isSome_some, true_iff]
      omega
  case placed =>
    intro line before message found
    have within := congrArg List.length (trailed_withoutTail line).cut
    rw [List.length_append] at within
    split at found
    · cases found
    · cases found
      exact ⟨⟨_, _, trailed_withoutTail line, rfl⟩, by omega, rfl⟩

theorem reports_noTabs (countable : Countable text) :
    Reports text noTabs TabIndented TabFrom fun _ => "tab character used for indentation" := by
  have asks : noTabs.check = onLines fun line =>
      if (line.takeWhile isIndent).contains '\t' then
        some ((line.takeWhile isIndent).idxOf '\t', "tab character used for indentation")
      else none := rfl
  apply reports_of_finds _ countable asks
  constructor
  case isSome_iff =>
    intro line
    rw [Option.isSome_ite, List.contains_iff_mem]
    constructor
    · intro held
      exact ⟨_, _, indented_takeWhile line, held⟩
    · rintro ⟨run, rest, indented, held⟩
      rwa [← indented.eq_takeWhile]
  case placed =>
    intro line before message found
    split at found
    · rename_i held
      cases found
      have indented := indented_takeWhile line
      obtain ⟨front, others, cut, first⟩ :=
        List.eq_append_cons_of_mem (List.contains_iff_mem.mp held)
      have place : (line.takeWhile isIndent).idxOf '\t' = front.length := by
        rw [cut, List.idxOf_append, if_neg first, List.idxOf_cons_self, Nat.zero_add]
      rw [cut] at indented
      refine ⟨⟨front, others, _, indented, first, place⟩, ?_, rfl⟩
      rw [place, indented.cut]
      simp only [List.length_append, List.length_cons]
      omega
    · cases found

theorem reports_maxLineLength (limit : Nat) (countable : Countable text) :
    Reports text (maxLineLength limit) (fun line => limit < line.length)
      (fun _ before => before = limit) fun line =>
        "line is " ++ toString line.length ++ " characters long, exceeding the limit of " ++
          toString limit := by
  have asks : (maxLineLength limit).check = onLines fun line =>
      if limit < line.length then
        some (limit, "line is " ++ toString line.length ++
          " characters long, exceeding the limit of " ++ toString limit)
      else none := rfl
  apply reports_of_finds _ countable asks
  constructor
  case isSome_iff =>
    intro line
    rw [Option.isSome_ite]
  case placed =>
    intro line before message found
    split at found
    · rename_i long
      cases found
      exact ⟨rfl, long, rfl⟩
    · cases found

/-- The built-in rules report the lines that they object to, in texts whose lines and columns
can be counted: those that end in a space or a tab, where the run of these begins; those that
are indented with a tab, at the first; those that are too long, behind the limit. A line ends in
a space or a tab if it has more bytes with its tail than without. -/
theorem rules_report_lines (limit : Nat) (text : String) (countable : Countable text) :
    (∀ lines, Text.Lined text.toList lines ↔ lines = Text.lines text) ∧
      Reports text trailingWhitespace EndsBlank BlankFrom (fun _ => "trailing whitespace") ∧
      (∀ line, EndsBlank line ↔
        (String.ofList (withoutTail line)).utf8ByteSize < (String.ofList line).utf8ByteSize) ∧
      Reports text noTabs TabIndented TabFrom (fun _ => "tab character used for indentation") ∧
      Reports text (maxLineLength limit) (fun line => limit < line.length)
        (fun _ before => before = limit) (fun line =>
          "line is " ++ toString line.length ++ " characters long, exceeding the limit of " ++
            toString limit) := by
  refine ⟨Text.lined_iff text, reports_trailingWhitespace countable, ?_,
    reports_noTabs countable, reports_maxLineLength limit countable⟩
  intro line
  rw [utf8ByteSize_withoutTail_lt_iff, withoutTail_length_lt_iff, endsBlank_iff]

/-- Blanks in front of a carriage return that ends their line, a carriage return that ends none,
and a last line without an end. -/
theorem rules_report_lines_of_returns :
    let text := "ä \t\r\n  \ty\n\tlong\rer"
    Countable text ∧
      (∃ violation ∈ trailingWhitespace.check text, violation.line.toNat = 1) ∧
      (∃ violation ∈ noTabs.check text, violation.line.toNat = 2) ∧
      (∃ violation ∈ (maxLineLength 7).check text, violation.line.toNat = 3) ∧
      ¬(∃ violation ∈ (maxLineLength 8).check text, violation.line.toNat = 3) := by
  intro text
  have countable : Countable text := ⟨by decide +kernel, by decide +kernel⟩
  have rows : Text.lines text = ["ä \t".toList, "  \ty".toList, "\tlong\rer".toList] := by
    decide +kernel
  obtain ⟨_, tails, _, tabs, long⟩ := rules_report_lines 7 text countable
  obtain ⟨_, _, _, _, short⟩ := rules_report_lines 8 text countable
  refine ⟨countable, ?_, ?_, ?_, ?_⟩
  · rw [tails.reported_iff 0 "ä \t".toList (by rw [rows]; rfl)]
    exact .inr rfl
  · rw [tabs.reported_iff 1 "  \ty".toList (by rw [rows]; rfl)]
    exact ⟨_, _, indented_takeWhile _, by decide⟩
  · rw [long.reported_iff 2 "\tlong\rer".toList (by rw [rows]; rfl)]
    decide
  · rw [short.reported_iff 2 "\tlong\rer".toList (by rw [rows]; rfl)]
    decide

end LineRule

end Reanalysis
