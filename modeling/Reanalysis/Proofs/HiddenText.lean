/-
What comments and literals hold. Texts that differ only there, and only in characters without a
meaning there, are read in lockstep: region by region and count by count, with the same
delimiters in code. So nothing that is hidden in comments and literals is ever reported.
-/

import Mathlib.Data.List.Forall2
import Reanalysis.Proofs.Sightings

namespace Reanalysis.Delimiters

/-- Characters that mean something inside comments or literals. -/
def isMark (char : Char) : Bool :=
  isQuote char || char = '\n' || char = '\\' || char = '*' || char = '/'

/-- Whether the scanner reads the character at a place inside a comment or a literal. -/
def isHidden (text : String) (place : Nat) : Bool :=
  (sighted text)[place]?.any (fun seen => seen.region ≠ .code)

/-- A text with every delimiter in its comments and literals written as `blank`. -/
def blanked (blank : Char) (text : String) : String :=
  String.ofList ((sighted text).map fun seen =>
    if seen.region ≠ .code ∧ isDelimiter seen.char then blank else seen.char)

def Alike (first second : Char) : Prop :=
  first = second ∨ isMark first = false ∧ isMark second = false

/-- Whether a character may stand in the place of one that is sighted. -/
def Agrees (seen : Sighting) (char : Char) : Prop :=
  seen.char = char ∨ seen.region ≠ .code ∧ isMark seen.char = false ∧ isMark char = false

theorem isMark_of_isDelimiter {char : Char} (delimits : isDelimiter char = true) :
    isMark char = false := by
  simp only [isDelimiter, isOpener, isCloser, Bool.or_eq_true, decide_eq_true_eq] at delimits
  rcases delimits with ((rfl | rfl) | rfl) | ((rfl | rfl) | rfl) <;> decide

theorem Agrees.alike {seen : Sighting} {char : Char} (agrees : Agrees seen char) :
    Alike seen.char char :=
  agrees.imp_right And.right

theorem Alike.eq_iff {first second mark : Char} (alike : Alike first second)
    (marks : isMark mark = true) : first = mark ↔ second = mark := by
  rcases alike with rfl | ⟨firstPlain, secondPlain⟩
  · rfl
  · constructor
    · rintro rfl
      rw [marks] at firstPlain
      cases firstPlain
    · rintro rfl
      rw [marks] at secondPlain
      cases secondPlain

theorem Alike.peek_iff {next other : Option Char} {mark : Char}
    (nexts : Option.Rel Alike next other) (marks : isMark mark = true) :
    next = some mark ↔ other = some mark := by
  cases nexts with
  | none => rfl
  | some alike => rw [Option.some.injEq, Option.some.injEq, alike.eq_iff marks]

def Region.Proper (region : Region) : Prop :=
  ∀ quote, region = .literal quote → isQuote quote = true

theorem Region.proper_code : Region.code.Proper := by
  intro quote opened
  cases opened

theorem Region.proper_lineComment : Region.lineComment.Proper := by
  intro quote opened
  cases opened

theorem Region.proper_blockComment : Region.blockComment.Proper := by
  intro quote opened
  cases opened

theorem Region.Proper.turn {region : Region} (proper : region.Proper) (char : Char)
    (next : Option Char) : (turn region char next).1.Proper := by
  unfold Delimiters.turn
  split
  · cases region with
    | code => exact proper_code
    | lineComment => exact proper_code
    | blockComment => exact proper_blockComment
    | literal quote =>
        simp only [nextLine]
        split
        · exact proper
        · exact proper_code
  · cases region with
    | lineComment => exact proper_lineComment
    | blockComment =>
        dsimp only
        split
        · exact proper_code
        · exact proper_blockComment
    | literal quote =>
        dsimp only
        split
        · exact proper
        · dsimp only
          split
          · exact proper_code
          · exact proper
    | code =>
        dsimp only
        split
        · exact proper_lineComment
        · split
          · exact proper_blockComment
          · dsimp only
            split
            · rename_i quoted
              intro quote opened
              cases opened
              exact quoted
            · exact proper_code

theorem turn_congr {region : Region} {char other : Char} {next beside : Option Char}
    (proper : region.Proper) (alike : Alike char other) (same : region = .code → char = other)
    (nexts : Option.Rel Alike next beside) : turn region char next = turn region other beside := by
  have feed : char = '\n' ↔ other = '\n' := alike.eq_iff (by decide)
  unfold turn
  rw [if_congr feed rfl rfl]
  refine if_congr Iff.rfl rfl ?_
  cases region with
  | lineComment => rfl
  | blockComment =>
      exact if_congr (and_congr (alike.eq_iff (by decide)) (Alike.peek_iff nexts (by decide)))
        rfl rfl
  | literal quote =>
      have marks : isMark quote = true := by
        unfold isMark
        rw [proper quote rfl]
        rfl
      have goesOn : next.any (· ≠ '\n') = beside.any (· ≠ '\n') := by
        cases nexts with
        | none => rfl
        | some alike =>
            have feeds : _ = '\n' ↔ _ = '\n' := alike.eq_iff (by decide)
            simp [feeds]
      dsimp only
      rw [goesOn, if_congr (alike.eq_iff marks) rfl rfl]
      exact if_congr (alike.eq_iff (by decide)) rfl rfl
  | code =>
      rw [← same rfl]
      dsimp only
      rw [if_congr (and_congr Iff.rfl (Alike.peek_iff nexts (by decide))) rfl rfl]
      refine if_congr Iff.rfl rfl ?_
      exact if_congr (and_congr Iff.rfl (Alike.peek_iff nexts (by decide))) rfl rfl

theorem turn_agrees {region : Region} {line column : UInt32} {char other : Char}
    {next beside : Option Char} (proper : region.Proper)
    (agrees : Agrees (Sighting.next region line column char) other)
    (nexts : Option.Rel Alike next beside) : turn region char next = turn region other beside := by
  have alike := agrees.alike
  rw [Sighting.next_char] at alike
  refine turn_congr proper alike (fun inCode => ?_) nexts
  rcases agrees with same | ⟨outside, _, _⟩
  · rwa [Sighting.next_char] at same
  · rw [Sighting.next_region] at outside
    exact absurd inCode outside

theorem next_congr {region : Region} {line column : UInt32} {char other : Char}
    (agrees : Agrees (Sighting.next region line column char) other) :
    let seen := Sighting.next region line column char
    let instead := Sighting.next region line column other
    instead.line = seen.line ∧ instead.column = seen.column ∧
      instead.delimiter? = seen.delimiter? := by
  rcases agrees with same | ⟨outside, plain, otherPlain⟩
  · rw [Sighting.next_char] at same
    rw [same]
    exact ⟨rfl, rfl, rfl⟩
  · rw [Sighting.next_char] at plain
    rw [Sighting.next_region] at outside
    have within : char ≠ '\n' := by rintro rfl; cases plain
    have otherWithin : other ≠ '\n' := by rintro rfl; cases otherPlain
    intro seen instead
    refine ⟨?_, ?_, ?_⟩
    · simp [seen, instead, Sighting.next_within within, Sighting.next_within otherWithin]
    · simp [seen, instead, Sighting.next_within within, Sighting.next_within otherWithin]
    · rw [Sighting.delimiter?_of_not_code, Sighting.delimiter?_of_not_code]
      · rwa [Sighting.next_region]
      · rwa [Sighting.next_region]

theorem head?_alike {text other : List Char} (alike : List.Forall₂ Alike text other) :
    Option.Rel Alike text.head? other.head? := by
  cases alike with
  | nil => exact .none
  | cons first rest => exact .some first

theorem alike_of_agrees {region : Region} {line column : UInt32} {text other : List Char}
    (agrees : List.Forall₂ Agrees (sightings region line column text) other) :
    List.Forall₂ Alike text other := by
  rw [← chars_sightings region line column text, List.forall₂_map_left_iff]
  exact agrees.imp fun _ _ => Agrees.alike

/-- Texts that agree have the same delimiters in code, at the same counts. -/
theorem delimiters_congr (region : Region) (line column : UInt32) (text : List Char)
    (proper : region.Proper) :
    ∀ other, List.Forall₂ Agrees (sightings region line column text) other →
      (sightings region line column other).filterMap Sighting.delimiter? =
        (sightings region line column text).filterMap Sighting.delimiter? := by
  induction region, line, column, text using sightings.induct with
  | case1 region line column =>
      intro other agrees
      rw [sightings, List.forall₂_nil_left_iff] at agrees
      rw [agrees]
  | case2 region line column char seen after along more beside turned ih =>
      intro other agrees
      have turnedAfter := proper.turn char (along :: more).head?
      rw [turned] at turnedAfter
      rw [sightings_along line column more turned] at agrees
      obtain ⟨first, behind, atFirst, agreesBehind, rfl⟩ := List.forall₂_cons_left_iff.mp agrees
      obtain ⟨second, others, atSecond, later, rfl⟩ := List.forall₂_cons_left_iff.mp agreesBehind
      have besides := atSecond.alike
      rw [Sighting.next_char] at besides
      have otherTurned : turn region first (some second) = (after, true) :=
        (turn_agrees proper atFirst (.some besides)).symm.trans turned
      obtain ⟨firstLine, firstColumn, firstFound⟩ := next_congr atFirst
      obtain ⟨secondLine, secondColumn, secondFound⟩ := next_congr atSecond
      rw [sightings_along line column others otherTurned, sightings_along line column more turned]
      dsimp only
      rw [List.filterMap_cons, List.filterMap_cons, List.filterMap_cons, List.filterMap_cons,
        firstFound, firstLine, firstColumn, secondFound, secondLine, secondColumn,
        ih turnedAfter others later]
  | case3 region line column char seen after taken rest alone turned ih =>
      obtain rfl := taken_eq_false turned alone
      intro other agrees
      have turnedAfter := proper.turn char rest.head?
      rw [turned] at turnedAfter
      rw [sightings_alone line column turned] at agrees
      obtain ⟨first, others, atFirst, later, rfl⟩ := List.forall₂_cons_left_iff.mp agrees
      have otherTurned : turn region first others.head? = (after, false) :=
        (turn_agrees proper atFirst (head?_alike (alike_of_agrees later))).symm.trans turned
      obtain ⟨firstLine, firstColumn, firstFound⟩ := next_congr atFirst
      rw [sightings_alone line column otherTurned, sightings_alone line column turned]
      dsimp only
      rw [List.filterMap_cons, List.filterMap_cons, firstFound, firstLine, firstColumn,
        ih turnedAfter others later]

theorem analyze_congr (file : SourcePath) {text other : String}
    (agrees : List.Forall₂ Agrees (sighted text) other.toList) :
    analyze file text = analyze file other := by
  have same : inCode other = inCode text := by
    rw [inCode_eq, inCode_eq]
    exact delimiters_congr .code 1 0 text.toList Region.proper_code other.toList agrees
  unfold analyze
  rw [same]

/-! ### Hidden text is ignored -/

theorem agrees_of_hidden {text other : String} (sizes : text.length = other.length)
    (hidden : ∀ place < text.length, ∀ before ∈ text.toList[place]?,
      ∀ after ∈ other.toList[place]?, before ≠ after →
        isHidden text place = true ∧ isMark before = false ∧ isMark after = false) :
    List.Forall₂ Agrees (sighted text) other.toList := by
  have lengths : (sighted text).length = text.length :=
    (length_sighted text).trans String.length_toList
  rw [List.forall₂_iff_get]
  refine ⟨by rw [lengths, sizes, String.length_toList], fun place inText inOther => ?_⟩
  have atText : text.toList[place]? = some (sighted text)[place].char := by
    rw [← chars_sighted, List.getElem?_map, List.getElem?_eq_getElem inText]
    rfl
  have atOther : other.toList[place]? = some other.toList[place] := List.getElem?_eq_getElem inOther
  by_cases same : (sighted text)[place].char = other.toList[place]
  · exact .inl same
  · obtain ⟨within, plain, otherPlain⟩ := hidden place (lengths ▸ inText) _ atText _ atOther same
    refine .inr ⟨?_, plain, otherPlain⟩
    unfold isHidden at within
    rw [List.getElem?_eq_getElem inText] at within
    simpa using within

theorem agrees_blanked {blank : Char} (plain : isMark blank = false) (text : String) :
    List.Forall₂ Agrees (sighted text) (blanked blank text).toList := by
  unfold blanked
  rw [String.toList_ofList, List.forall₂_map_right_iff, List.forall₂_same]
  intro seen _member
  split
  · rename_i hides
    exact .inr ⟨hides.1, isMark_of_isDelimiter hides.2, plain⟩
  · exact .inl rfl

/-- Texts of one length that differ only inside the comments and literals of the first, and there
only in characters without a meaning, have the same issues. So the delimiters in comments and
literals may as well be blanks. -/
theorem hidden_text_ignored (file : SourcePath) (text : String) :
    (∀ other : String, text.length = other.length →
      (∀ place < text.length, ∀ before ∈ text.toList[place]?, ∀ after ∈ other.toList[place]?,
        before ≠ after →
          isHidden text place = true ∧ isMark before = false ∧ isMark after = false) →
      analyze file text = analyze file other) ∧
    ∀ blank, isMark blank = false → analyze file (blanked blank text) = analyze file text := by
  constructor
  · intro other sizes hidden
    exact analyze_congr file (agrees_of_hidden sizes hidden)
  · intro blank plain
    exact (analyze_congr file (agrees_blanked plain text)).symm

theorem hidden_of_pairs {text other : String}
    (told : ∀ pair ∈ (text.toList.zip other.toList).zipIdx, pair.1.1 ≠ pair.1.2 →
      isHidden text pair.2 = true ∧ isMark pair.1.1 = false ∧ isMark pair.1.2 = false) :
    ∀ place < text.length, ∀ before ∈ text.toList[place]?, ∀ after ∈ other.toList[place]?,
      before ≠ after →
        isHidden text place = true ∧ isMark before = false ∧ isMark after = false := by
  intro place _ before inText after inOther differ
  refine told ((before, after), place) ?_ differ
  rw [List.mk_mem_zipIdx_iff_getElem?, List.getElem?_zip_eq_some]
  exact ⟨inText, inOther⟩

/-- Behind an escaped quote, a comment's open star and a backtick there is only text. -/
theorem hidden_text_ignored_behind_escapes :
    let text := "f(\"\\\"(\", /*/ ] */ \x60\x7b\n[\x60 // )"
    let other := "f(\"\\\")\", /*/ \x7b */ \x60(\n;\x60 // ["
    analyze ⟨"a.ts"⟩ text = analyze ⟨"a.ts"⟩ other ∧
      analyze ⟨"a.ts"⟩ (blanked ' ' text) = analyze ⟨"a.ts"⟩ text := by
  intro text other
  have ignored := hidden_text_ignored ⟨"a.ts"⟩ text
  exact ⟨ignored.1 other (by decide) (hidden_of_pairs (by decide +kernel)),
    ignored.2 ' ' (by decide)⟩

end Reanalysis.Delimiters
