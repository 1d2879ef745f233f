/-
Where issues stand. The counters of the scanner are exact as long as the text has fewer lines,
and fewer characters in each, than a counter can hold; so every issue stands at a delimiter in
code. Closers that do not fit are reported in the order of the text, then the openers left open,
and there are as many of each as the delimiters in code call for.
-/

import Mathlib.Data.List.Nodup
import Reanalysis.Proofs.LinePlaces
import Reanalysis.Proofs.Sightings
import Reanalysis.Proofs.WellNested

namespace Reanalysis

/-- Whether one place in a file stands before another, as line and column. -/
def Ahead (left right : UInt32 × UInt32) : Prop :=
  left.1 < right.1 ∨ left.1 = right.1 ∧ left.2 < right.2

def Issue.position (issue : Issue) : UInt32 × UInt32 := (issue.line, issue.column)

namespace Delimiters

open Text (lineOf columnOf)

def Delimiter.position (delimiter : Delimiter) : UInt32 × UInt32 :=
  (delimiter.line, delimiter.column)

/-- Sightings behind a front whose counters are those of the text up to each of them. -/
inductive Counted : List Char → List Sighting → Prop
  | done (front : List Char) : Counted front []
  | count (front : List Char) (seen : Sighting) (rest : List Sighting)
      (line : seen.line = UInt32.ofNat (lineOf (front ++ [seen.char])))
      (column : seen.column = UInt32.ofNat (columnOf (front ++ [seen.char])))
      (later : Counted (front ++ [seen.char]) rest) : Counted front (seen :: rest)

theorem Sighting.next_counters (front : List Char) (region : Region) (char : Char) :
    let seen := next region (UInt32.ofNat (lineOf front)) (UInt32.ofNat (columnOf front)) char
    seen.line = UInt32.ofNat (lineOf (front ++ [seen.char])) ∧
      seen.column = UInt32.ofNat (columnOf (front ++ [seen.char])) := by
  intro seen
  rw [show seen.char = char from next_char ..]
  by_cases isFeed : char = '\n'
  · subst isFeed
    rw [Text.lineOf_feed, Text.columnOf_feed, UInt32.ofNat_add]
    exact ⟨rfl, rfl⟩
  · rw [Text.lineOf_within isFeed, Text.columnOf_within isFeed, UInt32.ofNat_add,
      show seen = _ from next_within isFeed ..]
    exact ⟨rfl, rfl⟩

theorem counted_sightings (region : Region) (line column : UInt32) (text : List Char) :
    ∀ front, line = UInt32.ofNat (lineOf front) → column = UInt32.ofNat (columnOf front) →
      Counted front (sightings region line column text) := by
  induction region, line, column, text using sightings.induct with
  | case1 region line column => exact fun front _ _ => .done front
  | case2 region line column char seen after along more beside turned ih =>
      rintro front rfl rfl
      obtain ⟨line, column⟩ := Sighting.next_counters front region char
      obtain ⟨lineBeside, columnBeside⟩ :=
        Sighting.next_counters (front ++ [seen.char]) region along
      rw [sightings_along _ _ more turned]
      rw [← line, ← column] at lineBeside columnBeside
      exact .count _ _ _ line column (.count _ _ _ lineBeside columnBeside
        (ih _ lineBeside columnBeside))
  | case3 region line column char seen after taken rest alone turned ih =>
      rintro front rfl rfl
      obtain rfl := taken_eq_false turned alone
      obtain ⟨line, column⟩ := Sighting.next_counters front region char
      rw [sightings_alone _ _ turned]
      exact .count _ _ _ line column (ih _ line column)

theorem Counted.exact {front : List Char} {seens : List Sighting} (counted : Counted front seens)
    {index : Nat} {seen : Sighting} (found : seens[index]? = some seen) :
    seen.line = UInt32.ofNat (lineOf (front ++ (seens.map Sighting.char).take (index + 1))) ∧
      seen.column =
        UInt32.ofNat (columnOf (front ++ (seens.map Sighting.char).take (index + 1))) := by
  induction counted generalizing index with
  | done front => cases found
  | count front first rest line column later ih =>
      cases index with
      | zero =>
          cases found
          exact ⟨line, column⟩
      | succ index =>
          rw [List.getElem?_cons_succ] at found
          rw [List.map_cons, List.take_succ_cons, List.append_cons]
          exact ih found

/-- Texts with few enough lines, and few enough characters in each, for the counters. -/
structure Countable (text : String) : Prop where
  lines : (Text.lines text).length < UInt32.size - 1
  columns : ∀ line ∈ Text.lines text, line.length < UInt32.size - 1

section Exact

variable {text : String}

theorem Countable.bounds (countable : Countable text) {front rest : List Char}
    (cut : text.toList = front ++ rest) :
    lineOf front < UInt32.size ∧ columnOf front < UInt32.size := by
  have large : 2 ≤ UInt32.size := by decide
  have line := Text.lineOf_le cut
  have column := Text.columnOf_le (UInt32.size - 2) cut fun line member => by
    have short := countable.columns line member
    omega
  have few := countable.lines
  omega

theorem exact_counters (countable : Countable text) {index : Nat} {seen : Sighting}
    (found : (sighted text)[index]? = some seen) :
    seen.line.toNat = lineOf (text.toList.take (index + 1)) ∧
      seen.column.toNat = columnOf (text.toList.take (index + 1)) := by
  have counted : Counted [] (sighted text) := counted_sightings _ _ _ _ [] rfl rfl
  obtain ⟨line, column⟩ := counted.exact found
  rw [chars_sighted, List.nil_append] at line column
  obtain ⟨lineBound, columnBound⟩ :=
    countable.bounds (List.take_append_drop (index + 1) text.toList).symm
  rw [line, column]
  exact ⟨UInt32.toNat_ofNat_of_lt' lineBound, UInt32.toNat_ofNat_of_lt' columnBound⟩

theorem ahead_sighted (countable : Countable text) :
    (sighted text).Pairwise fun first second =>
      Ahead (first.line, first.column) (second.line, second.column) := by
  rw [List.pairwise_iff_getElem]
  intro first second inFirst inSecond before
  obtain ⟨firstLine, firstColumn⟩ := exact_counters countable (List.getElem?_eq_getElem inFirst)
  obtain ⟨secondLine, secondColumn⟩ := exact_counters countable (List.getElem?_eq_getElem inSecond)
  have size := length_sighted text
  obtain ⟨more, goesOn⟩ : text.toList.take (first + 1) <+: text.toList.take (second + 1) :=
    List.take_prefix_take_left (by omega)
  have nonempty : more ≠ [] := by
    rintro rfl
    have lengths := congrArg List.length goesOn
    rw [List.append_nil, List.length_take, List.length_take] at lengths
    omega
  unfold Ahead
  rw [UInt32.lt_iff_toNat_lt, UInt32.lt_iff_toNat_lt, ← UInt32.toNat_inj, firstLine, firstColumn,
    secondLine, secondColumn, ← goesOn]
  exact Text.ends_further nonempty

/-- The delimiters in code stand one before the other. -/
theorem ahead_inCode (countable : Countable text) :
    ((inCode text).map Delimiter.position).Pairwise Ahead := by
  rw [List.pairwise_map, inCode_eq]
  refine (ahead_sighted countable).filterMap _ ?_
  intro first second before left isLeft right isRight
  obtain ⟨rfl, _⟩ := Sighting.delimiter?_eq_some_iff.mp isLeft
  obtain ⟨rfl, _⟩ := Sighting.delimiter?_eq_some_iff.mp isRight
  exact before

end Exact

structure Tallied (word : List Delimiter) (state : Matching) : Prop where
  waiting : state.waiting.reverse.Sublist (word.filter fun delimiter => isOpener delimiter.char)
  places : (state.defects.reverse.map Defect.place).Sublist
    (word.filter fun delimiter => isCloser delimiter.char)
  codes : ∀ defect ∈ state.defects, defect.code = "E002" ∨ defect.code = "E003"
  balance : word.countP (fun delimiter => isOpener delimiter.char) +
      state.defects.countP (fun defect => defect.code = "E002") =
    word.countP (fun delimiter => isCloser delimiter.char) + state.waiting.length

theorem isCloser_of_isOpener {char : Char} (opens : isOpener char = true) :
    isCloser char = false := by
  simp only [isOpener, Bool.or_eq_true, decide_eq_true_eq] at opens
  rcases opens with (rfl | rfl) | rfl <;> decide

theorem countP_concat (test : Char → Bool) (word : List Delimiter) (delimiter : Delimiter) :
    (word ++ [delimiter]).countP (fun other => test other.char) =
      word.countP (fun other => test other.char) + (test delimiter.char).toNat := by
  rw [List.countP_append, List.countP_singleton]
  cases test delimiter.char <;> rfl

/-- A closer takes off at most one opener, and each defect it makes stands at the closer. -/
theorem Tallied.close {word waits : List Delimiter} {defects : List Defect}
    {delimiter : Delimiter} (tallied : Tallied word ⟨waits, defects⟩)
    (left : List Delimiter) (more : List Defect)
    (opens : isOpener delimiter.char = false) (closes : isCloser delimiter.char = true)
    (outer : left.reverse.Sublist waits.reverse)
    (placed : (more.reverse.map Defect.place).Sublist [delimiter])
    (coded : ∀ defect ∈ more, defect.code = "E002" ∨ defect.code = "E003")
    (balanced : more.countP (fun defect => defect.code = "E002") + waits.length =
      left.length + 1) :
    Tallied (word ++ [delimiter]) ⟨left, more ++ defects⟩ := by
  obtain ⟨waiting, places, codes, balance⟩ := tallied
  constructor
  · simpa [opens] using outer.trans waiting
  · simpa [closes] using places.append placed
  · intro defect member
    exact (List.mem_append.mp member).elim (coded defect) (codes defect)
  · rw [countP_concat, countP_concat, opens, closes, Bool.toNat_true, Bool.toNat_false,
      List.countP_append]
    dsimp only at balance ⊢
    omega

theorem Tallied.step {word : List Delimiter} {state : Matching} (tallied : Tallied word state)
    {delimiter : Delimiter} (delimits : isDelimiter delimiter.char = true) :
    Tallied (word ++ [delimiter]) (state.step delimiter) := by
  by_cases opens : isOpener delimiter.char = true
  · have closes := isCloser_of_isOpener opens
    obtain ⟨waiting, places, codes, balance⟩ := tallied
    rw [Matching.step_opener state opens]
    constructor
    · simpa [opens] using waiting.append_right [delimiter]
    · simpa [closes] using places
    · exact codes
    · rw [countP_concat, countP_concat, opens, closes, Bool.toNat_true, Bool.toNat_false,
        List.length_cons]
      dsimp only
      omega
  · rw [Bool.not_eq_true] at opens
    have closes : isCloser delimiter.char = true := by
      simpa [isDelimiter, opens] using delimits
    obtain ⟨waits, defects⟩ := state
    unfold Matching.step
    rw [opens, if_neg Bool.false_ne_true]
    cases waits with
    | nil =>
        refine tallied.close [] [.unexpected delimiter] opens closes (.refl _) ?_ ?_ ?_
        all_goals simp [Defect.place, Defect.code]
    | cons innermost others =>
        have outer : others.reverse.Sublist (innermost :: others).reverse := by
          rw [List.reverse_cons]
          exact List.sublist_append_left ..
        dsimp only
        split
        · exact tallied.close others [] opens closes outer (List.nil_sublist _)
            (List.forall_mem_nil _) (Nat.zero_add _)
        · refine tallied.close others [.mismatched innermost delimiter] opens closes outer ?_ ?_ ?_
          all_goals simp [Defect.place, Defect.code]

theorem tallied_foldl (word : List Delimiter)
    (delimits : ∀ delimiter ∈ word, isDelimiter delimiter.char = true) :
    Tallied word (word.foldl Matching.step ⟨[], []⟩) := by
  induction word using List.reverseRecOn with
  | nil => exact ⟨.slnil, .slnil, nofun, rfl⟩
  | append_singleton word delimiter ih =>
      rw [List.foldl_append, List.foldl_cons, List.foldl_nil]
      have front := ih fun other member => delimits other (List.mem_append_left _ member)
      exact front.step (delimits delimiter (List.mem_append_right _ List.mem_cons_self))

/-! ### Issues -/

/-- Whether an issue stands at a delimiter in code: at an opener if it says that one is left
open, else at a closer. -/
def StandsInCode (text : String) (issue : Issue) : Prop :=
  ∃ row column content char, issue.line.toNat = row + 1 ∧ issue.column.toNat = column + 1 ∧
    (Text.lines text)[row]? = some content ∧ content[column]? = some char ∧
    ⟨char, .code, issue.line, issue.column⟩ ∈ sighted text ∧
    (if issue.code = "E001" then isOpener char else isCloser char) = true

theorem stands_of_mem_inCode {text : String} (countable : Countable text) {delimiter : Delimiter}
    (member : delimiter ∈ inCode text) :
    ∃ row column content, delimiter.line.toNat = row + 1 ∧ delimiter.column.toNat = column + 1 ∧
      (Text.lines text)[row]? = some content ∧ content[column]? = some delimiter.char := by
  obtain ⟨inSighted, delimits⟩ := mem_inCode.mp member
  obtain ⟨index, found⟩ := List.getElem?_of_mem inSighted
  obtain ⟨line, column⟩ := exact_counters countable found
  have atIndex : text.toList[index]? = some delimiter.char := by
    rw [← chars_sighted, List.getElem?_map, found]
    rfl
  obtain ⟨inText, isChar⟩ := List.getElem?_eq_some_iff.mp atIndex
  have cut : text.toList =
      text.toList.take index ++ delimiter.char :: text.toList.drop (index + 1) := by
    rw [← isChar, ← List.drop_eq_getElem_cons inText, List.take_append_drop]
  have within : delimiter.char ≠ '\n' ∧ delimiter.char ≠ '\r' := by
    constructor <;> intro isEnd <;> rw [isEnd] at delimits <;> cases delimits
  obtain ⟨row, place, found, lineEq, columnEq, inLines, inLine⟩ :=
    Text.stands_in_line cut within.1 within.2
  have upTo : text.toList.take (index + 1) = text.toList.take index ++ [delimiter.char] := by
    rw [List.take_succ_eq_append_getElem inText, isChar]
  exact ⟨row, place, found, by rw [line, upTo, lineEq], by rw [column, upTo, columnEq], inLines,
    inLine⟩

theorem report_parts (file : SourcePath) (text : String) :
    ∃ (misfits : List Defect) (leftOpen : List Delimiter),
      analyze file text = misfits.map (Defect.toIssue file) ++
        leftOpen.map (fun opener => (Defect.unclosed opener).toIssue file) ∧
      (misfits.map Defect.place).Sublist
        ((inCode text).filter fun delimiter => isCloser delimiter.char) ∧
      leftOpen.Sublist ((inCode text).filter fun delimiter => isOpener delimiter.char) ∧
      (∀ misfit ∈ misfits, misfit.code = "E002" ∨ misfit.code = "E003") ∧
      (inCode text).countP (fun delimiter => isOpener delimiter.char) +
          misfits.countP (fun misfit => misfit.code = "E002") =
        (inCode text).countP (fun delimiter => isCloser delimiter.char) + leftOpen.length := by
  have tallied := tallied_foldl (inCode text) fun delimiter member => (mem_inCode.mp member).2
  refine ⟨_, _, ?_, tallied.places, tallied.waiting, ?_, ?_⟩
  · unfold analyze defects
    rw [List.map_append, List.map_map]
    rfl
  · exact fun misfit member => tallied.codes misfit (List.mem_reverse.mp member)
  · rw [List.countP_reverse, List.length_reverse]
    exact tallied.balance

theorem Ahead.ne {left right : UInt32 × UInt32} (ahead : Ahead left right) : left ≠ right := by
  rintro rfl
  rcases ahead with line | ⟨_, column⟩
  · exact UInt32.lt_irrefl _ line
  · exact UInt32.lt_irrefl _ column

theorem nodup_of_ahead {places : List (UInt32 × UInt32)} (ahead : places.Pairwise Ahead) :
    places.Nodup :=
  ahead.imp Ahead.ne

theorem nodup_places {text : String} (countable : Countable text) {closers openers : List Delimiter}
    (areClosers : closers.Sublist ((inCode text).filter fun delimiter => isCloser delimiter.char))
    (areOpeners : openers.Sublist ((inCode text).filter fun delimiter => isOpener delimiter.char)) :
    ((closers ++ openers).map Delimiter.position).Nodup := by
  have nodup := nodup_of_ahead (ahead_inCode countable)
  rw [List.map_append, List.nodup_append]
  refine ⟨nodup.sublist ((areClosers.trans List.filter_sublist).map _),
    nodup.sublist ((areOpeners.trans List.filter_sublist).map _), ?_⟩
  intro place atCloser other atOpener same
  subst same
  obtain ⟨closer, isCloserOf, closerAt⟩ := List.mem_map.mp atCloser
  obtain ⟨opener, isOpenerOf, openerAt⟩ := List.mem_map.mp atOpener
  obtain ⟨closerIn, closes⟩ := List.mem_filter.mp (areClosers.subset isCloserOf)
  obtain ⟨openerIn, opens⟩ := List.mem_filter.mp (areOpeners.subset isOpenerOf)
  have one : closer = opener :=
    List.inj_on_of_nodup_map nodup closerIn openerIn (closerAt.trans openerAt.symm)
  rw [one, isCloser_of_isOpener opens] at closes
  cases closes

theorem standsInCode {text : String} (countable : Countable text) {issue : Issue}
    {delimiter : Delimiter} (member : delimiter ∈ inCode text)
    (placed : issue.position = delimiter.position)
    (kind : (if issue.code = "E001" then isOpener delimiter.char else isCloser delimiter.char) =
      true) : StandsInCode text issue := by
  obtain ⟨line, column⟩ := Prod.mk.inj placed
  obtain ⟨row, place, held, lineEq, columnEq, inLines, inLine⟩ :=
    stands_of_mem_inCode countable member
  refine ⟨row, place, held, delimiter.char, by rw [line, lineEq], by rw [column, columnEq],
    inLines, inLine, ?_, kind⟩
  rw [line, column]
  exact (mem_inCode.mp member).1

theorem countP_codes (file : SourcePath) {misfits : List Defect} (leftOpen : List Delimiter)
    (codes : ∀ misfit ∈ misfits, misfit.code = "E002" ∨ misfit.code = "E003") :
    let report := misfits.map (Defect.toIssue file) ++
      leftOpen.map (fun opener => (Defect.unclosed opener).toIssue file)
    report.countP (fun issue => issue.code = "E002") =
        misfits.countP (fun misfit => misfit.code = "E002") ∧
      report.countP (fun issue => issue.code = "E001") = leftOpen.length := by
  intro report
  have unexpected : leftOpen.countP
      ((fun issue : Issue => decide (issue.code = "E002")) ∘
        fun opener => (Defect.unclosed opener).toIssue file) = 0 :=
    List.countP_eq_zero.mpr fun opener _ => by
      change ¬decide ("E001" = "E002") = true
      decide
  have unclosed : leftOpen.countP
      ((fun issue : Issue => decide (issue.code = "E001")) ∘
        fun opener => (Defect.unclosed opener).toIssue file) = leftOpen.length :=
    List.countP_eq_length.mpr fun opener _ => rfl
  have fitting : misfits.countP
      ((fun issue : Issue => decide (issue.code = "E001")) ∘ Defect.toIssue file) = 0 := by
    refine List.countP_eq_zero.mpr fun misfit member => ?_
    change ¬decide (misfit.code = "E001") = true
    rcases codes misfit member with code | code <;> rw [code] <;> decide
  constructor
  · rw [List.countP_append, List.countP_map, List.countP_map, unexpected]
    rfl
  · rw [List.countP_append, List.countP_map, List.countP_map, fitting, unclosed, Nat.zero_add]

/-- Every issue of a countable text stands at a delimiter in code. The counters are exact behind
every character, so none of them overflows; the closers that do not fit come first, and then the
openers left open, both in the order of the text; and the numbers of both account for all
delimiters in code. -/
theorem issues_stand_in_code (file : SourcePath) (text : String) (countable : Countable text) :
    (∀ index seen, (sighted text)[index]? = some seen →
      seen.line.toNat = lineOf (text.toList.take (index + 1)) ∧
        seen.column.toNat = columnOf (text.toList.take (index + 1))) ∧
    (∃ closing opening, analyze file text = closing ++ opening ∧
      (∀ issue ∈ closing, issue.code = "E002" ∨ issue.code = "E003") ∧
      (∀ issue ∈ opening, issue.code = "E001") ∧
      (closing.map Issue.position).Pairwise Ahead ∧ (opening.map Issue.position).Pairwise Ahead) ∧
    ((analyze file text).map Issue.position).Nodup ∧
    (∀ issue ∈ analyze file text, StandsInCode text issue) ∧
    ∀ delimiters, Reads text.toList delimiters →
      delimiters.countP isOpener +
          (analyze file text).countP (fun issue => issue.code = "E002") =
        delimiters.countP isCloser +
          (analyze file text).countP (fun issue => issue.code = "E001") := by
  obtain ⟨misfits, leftOpen, report, areClosers, areOpeners, codes, balance⟩ :=
    report_parts file text
  have misfitPlaces : (misfits.map (Defect.toIssue file)).map Issue.position =
      (misfits.map Defect.place).map Delimiter.position := by
    rw [List.map_map, List.map_map]
    rfl
  have openPlaces : (leftOpen.map fun opener => (Defect.unclosed opener).toIssue file).map
      Issue.position = leftOpen.map Delimiter.position := by
    rw [List.map_map]
    rfl
  refine ⟨fun index seen => exact_counters countable, ?_, ?_, ?_, ?_⟩
  · refine ⟨_, _, report, ?_, ?_, ?_, ?_⟩
    · rw [List.forall_mem_map]
      exact codes
    · rw [List.forall_mem_map]
      exact fun _ _ => rfl
    · rw [misfitPlaces]
      exact (ahead_inCode countable).sublist ((areClosers.trans List.filter_sublist).map _)
    · rw [openPlaces]
      exact (ahead_inCode countable).sublist ((areOpeners.trans List.filter_sublist).map _)
  · rw [report, List.map_append, misfitPlaces, openPlaces, ← List.map_append]
    exact nodup_places countable areClosers areOpeners
  · intro issue member
    rw [report, List.mem_append, List.mem_map, List.mem_map] at member
    rcases member with ⟨misfit, isMisfit, rfl⟩ | ⟨opener, isOpen, rfl⟩
    · obtain ⟨inText, closes⟩ :=
        List.mem_filter.mp (areClosers.subset (List.mem_map_of_mem isMisfit))
      apply standsInCode countable inText rfl
      rw [if_neg]
      · exact closes
      · change misfit.code ≠ "E001"
        rcases codes misfit isMisfit with code | code <;> rw [code] <;> decide
    · obtain ⟨inText, opens⟩ := List.mem_filter.mp (areOpeners.subset isOpen)
      exact standsInCode countable inText rfl opens
  · intro delimiters reads
    obtain ⟨unexpected, unclosed⟩ := countP_codes file leftOpen codes
    rw [reads_iff.mp reads, List.countP_map, List.countP_map, report, unexpected, unclosed]
    exact balance

/-- A closer that fits nothing, one that closes the wrong opener behind a carriage return, and an
opener that is left open behind a literal. -/
theorem issues_stand_in_code_of_three :
    let text := "\x7df([)\r\n'(' \x7b"
    Countable text ∧
      (analyze ⟨"a.ts"⟩ text).map (fun issue => (issue.code, issue.position)) =
        [("E002", 1, 1), ("E003", 1, 5), ("E001", 1, 3), ("E001", 2, 5)] ∧
      ((analyze ⟨"a.ts"⟩ text).map Issue.position).Nodup ∧
      ∀ issue ∈ analyze ⟨"a.ts"⟩ text, StandsInCode text issue := by
  intro text
  have countable : Countable text := ⟨by decide +kernel, by decide +kernel⟩
  obtain ⟨_, _, apart, stand, _⟩ := issues_stand_in_code ⟨"a.ts"⟩ text countable
  exact ⟨countable, by decide +kernel, apart, stand⟩

end Delimiters

end Reanalysis
