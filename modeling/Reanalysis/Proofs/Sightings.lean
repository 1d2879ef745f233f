/-
What the scanner reads. A sighting says of one character in which region the scanner reads it
and where the counters stand behind it. A text has one sighting for each of its characters, and
what the scanner finds are the delimiters that are sighted in code.
-/

import Reanalysis.Proofs.CodeReading

namespace Reanalysis.Delimiters

/-- Where a reading goes on behind a character, and whether it takes the one behind it along. -/
def turn (region : Region) (char : Char) (next : Option Char) : Region × Bool :=
  if char = '\n' then (region.nextLine, false)
  else
    match region with
    | .lineComment => (.lineComment, false)
    | .blockComment =>
        if char = '*' ∧ next = some '/' then (.code, true) else (.blockComment, false)
    | .literal quote =>
        if char = '\\' then (.literal quote, next.any (· ≠ '\n'))
        else (if char = quote then .code else .literal quote, false)
    | .code =>
        if char = '/' ∧ next = some '/' then (.lineComment, false)
        else if char = '/' ∧ next = some '*' then (.blockComment, true)
        else (if isQuote char then .literal char else .code, false)

/-- A character as the scanner reads it: the region it is part of, and the counters once it is
counted. -/
structure Sighting where
  char : Char
  region : Region
  line : UInt32
  column : UInt32
deriving DecidableEq, Repr

namespace Sighting

/-- Reads a character in a region, with the counters of the character before. -/
def next (region : Region) (line column : UInt32) (char : Char) : Sighting :=
  if char = '\n' then ⟨char, region, line + 1, 0⟩ else ⟨char, region, line, column + 1⟩

def delimiter? (seen : Sighting) : Option Delimiter :=
  if seen.region = .code ∧ isDelimiter seen.char = true then
    some ⟨seen.char, seen.line, seen.column⟩
  else none

@[simp] theorem next_char (region : Region) (line column : UInt32) (char : Char) :
    (next region line column char).char = char := by
  unfold next
  split <;> rfl

@[simp] theorem next_region (region : Region) (line column : UInt32) (char : Char) :
    (next region line column char).region = region := by
  unfold next
  split <;> rfl

theorem next_within {char : Char} (within : char ≠ '\n') (region : Region)
    (line column : UInt32) : next region line column char = ⟨char, region, line, column + 1⟩ :=
  if_neg within

theorem delimiter?_of_not_code {seen : Sighting} (outside : seen.region ≠ .code) :
    seen.delimiter? = none :=
  if_neg fun both => outside both.1

theorem delimiter?_of_plain {seen : Sighting} (plain : isDelimiter seen.char = false) :
    seen.delimiter? = none :=
  if_neg fun both => Bool.false_ne_true (plain.symm.trans both.2)

theorem delimiter?_eq_some_iff {seen : Sighting} {delimiter : Delimiter} :
    seen.delimiter? = some delimiter ↔
      seen = ⟨delimiter.char, .code, delimiter.line, delimiter.column⟩ ∧
        isDelimiter delimiter.char = true := by
  obtain ⟨char, region, line, column⟩ := seen
  obtain ⟨mark, row, place⟩ := delimiter
  simp only [delimiter?, Option.ite_none_right_eq_some, Option.some.injEq, Delimiter.mk.injEq,
    mk.injEq]
  constructor
  · rintro ⟨⟨inCode, delimits⟩, rfl, rfl, rfl⟩
    exact ⟨⟨rfl, inCode, rfl, rfl⟩, delimits⟩
  · rintro ⟨⟨rfl, inCode, rfl, rfl⟩, delimits⟩
    exact ⟨⟨inCode, delimits⟩, rfl, rfl, rfl⟩

end Sighting

/-- The sightings of a text that is read from a region on, when the counters stand at the
character before it. Characters that are read at once are part of one region. -/
def sightings (region : Region) (line column : UInt32) : List Char → List Sighting
  | [] => []
  | char :: rest =>
      let seen := Sighting.next region line column char
      match turn region char rest.head?, rest with
      | (after, true), along :: more =>
          let beside := Sighting.next region seen.line seen.column along
          seen :: beside :: sightings after beside.line beside.column more
      | (after, _), rest => seen :: sightings after seen.line seen.column rest

def sighted (text : String) : List Sighting := sightings .code 1 0 text.toList

section Turns

variable {region after : Region} {char along : Char} {taken : Bool} {rest more : List Char}

theorem turn_none (region : Region) (char : Char) : (turn region char none).2 = false := by
  unfold turn
  split
  · rfl
  · cases region with
    | code => simp
    | lineComment => rfl
    | blockComment => simp
    | literal quote => dsimp only; split <;> rfl

theorem taken_eq_false (turned : turn region char rest.head? = (after, taken))
    (alone : ∀ along more, rest = along :: more → taken = true → False) : taken = false := by
  cases rest with
  | nil =>
      have last := turn_none region char
      rw [List.head?_nil] at turned
      rw [turned] at last
      exact last
  | cons along more => exact Bool.eq_false_iff.mpr (alone along more rfl)

theorem taken_along (turned : turn region char (some along) = (after, true)) :
    char ≠ '\n' ∧ along ≠ '\n' ∧ (region = .code → char = '/' ∧ along = '*') := by
  unfold turn at turned
  split at turned
  · cases turned
  · rename_i within
    refine ⟨within, ?_⟩
    cases region with
    | lineComment => cases turned
    | blockComment =>
        dsimp only at turned
        split at turned
        · rename_i ends
          cases ends.2
          exact ⟨by decide, nofun⟩
        · cases turned
    | literal quote =>
        dsimp only at turned
        split at turned
        · simp only [Option.any_some, Prod.mk.injEq, decide_eq_true_eq] at turned
          exact ⟨turned.2, nofun⟩
        · cases turned
    | code =>
        dsimp only at turned
        split at turned
        · cases turned
        · split at turned
          · rename_i opens
            cases opens.2
            exact ⟨by decide, fun _ => ⟨opens.1, rfl⟩⟩
          · cases turned

end Turns

theorem sightings_along {region after : Region} {char along : Char} (line column : UInt32)
    (more : List Char) (turned : turn region char (some along) = (after, true)) :
    sightings region line column (char :: along :: more) =
      let seen := Sighting.next region line column char
      let beside := Sighting.next region seen.line seen.column along
      seen :: beside :: sightings after beside.line beside.column more :=
  sightings.eq_2 region line column char after along more turned

theorem sightings_alone {region after : Region} {char : Char} {rest : List Char}
    (line column : UInt32) (turned : turn region char rest.head? = (after, false)) :
    sightings region line column (char :: rest) =
      let seen := Sighting.next region line column char
      seen :: sightings after seen.line seen.column rest :=
  sightings.eq_3 region line column char rest after false
    (fun _ _ _ taken => Bool.false_ne_true taken) turned

theorem chars_sightings (region : Region) (line column : UInt32) (text : List Char) :
    (sightings region line column text).map Sighting.char = text := by
  induction region, line, column, text using sightings.induct with
  | case1 region line column => rfl
  | case2 region line column char seen after along more beside turned ih =>
      rw [sightings_along line column more turned, List.map_cons, List.map_cons, ih,
        Sighting.next_char, Sighting.next_char]
  | case3 region line column char seen after taken rest alone turned ih =>
      obtain rfl := taken_eq_false turned alone
      rw [sightings_alone line column turned, List.map_cons, ih, Sighting.next_char]

theorem chars_sighted (text : String) : (sighted text).map Sighting.char = text.toList :=
  chars_sightings ..

theorem length_sighted (text : String) : (sighted text).length = text.toList.length := by
  rw [← chars_sighted, List.length_map]

/-! ### The scanner takes turns -/

section Scan

variable (found : List Delimiter) {region after : Region} {char along : Char}
  {rest more : List Char} (line column : UInt32)

theorem scan_along (turned : turn region char (some along) = (after, true)) :
    scan found region line column (char :: along :: more) =
      scan found after line (column + 1 + 1) more := by
  unfold turn at turned
  split at turned
  · cases turned
  · cases region with
    | lineComment => cases turned
    | blockComment =>
        dsimp only at turned
        split at turned
        · rename_i ends
          cases turned
          obtain ⟨rfl, closes⟩ := ends
          cases closes
          simp [scan]
        · cases turned
    | literal quote =>
        dsimp only at turned
        split at turned
        · rename_i escapes
          subst escapes
          simp only [Option.any_some, Prod.mk.injEq, decide_eq_true_eq] at turned
          rw [scan_escaped found turned.2, turned.1]
        · cases turned
    | code =>
        dsimp only at turned
        split at turned
        · cases turned
        · split at turned
          · rename_i opens
            cases turned
            obtain ⟨rfl, star⟩ := opens
            cases star
            exact scan_opensBlock found more line column
          · cases turned

theorem scan_uncommented (within : char ≠ '\n')
    (unlined : ¬(char = '/' ∧ rest.head? = some '/'))
    (unblocked : ¬(char = '/' ∧ rest.head? = some '*')) :
    scan found .code line column (char :: rest) =
      scan ((Sighting.next .code line column char).delimiter?.toList ++ found)
        (if isQuote char then .literal char else .code) line (column + 1) rest := by
  have uncommented (mark : Char) (marked : mark = '/' ∨ mark = '*') (behind : List Char)
      (slash : char = '/') (cut : rest = mark :: behind) : False := by
    subst cut
    rcases marked with rfl | rfl
    · exact unlined ⟨slash, rfl⟩
    · exact unblocked ⟨slash, rfl⟩
  rw [Sighting.next_within within,
    scan.eq_10 _ _ _ _ _ within (uncommented '/' (.inl rfl)) (uncommented '*' (.inr rfl))]
  by_cases quoted : isQuote char = true
  · have plain : isDelimiter char = false := Bool.eq_false_iff.mpr fun delimits => by
      rw [isQuote_of_isDelimiter delimits] at quoted
      cases quoted
    rw [if_pos quoted, if_pos quoted, Sighting.delimiter?_of_plain plain]
    rfl
  · rw [if_neg quoted, if_neg quoted]
    by_cases delimits : isDelimiter char = true <;> simp [delimits, Sighting.delimiter?]

theorem scan_alone (turned : turn region char rest.head? = (after, false)) :
    let seen := Sighting.next region line column char
    scan found region line column (char :: rest) =
      scan (seen.delimiter?.toList ++ found) after seen.line seen.column rest := by
  unfold turn at turned
  split at turned
  · rename_i isFeed
    cases turned
    subst isFeed
    simp [scan, Sighting.next, Sighting.delimiter?, isDelimiter, isOpener, isCloser]
  · rename_i within
    cases region with
    | lineComment =>
        cases turned
        simp [scan, Sighting.next_within within, Sighting.delimiter?]
    | blockComment =>
        dsimp only at turned
        split at turned
        · cases turned
        · rename_i ends
          cases turned
          rw [scan.eq_5 _ _ _ _ _ within]
          · simp [Sighting.next_within within, Sighting.delimiter?]
          · rintro behind rfl rfl
            exact ends ⟨rfl, rfl⟩
    | literal quote =>
        dsimp only at turned
        split at turned
        · rename_i escapes
          subst escapes
          obtain ⟨stays, stops⟩ := Prod.mk.inj turned
          have ends : EndsLine rest := by
            cases rest with
            | nil => exact .inl rfl
            | cons next more =>
                have isFeed : next = '\n' := by simpa using stops
                exact .inr ⟨more, by rw [isFeed]⟩
          rw [scan_idle found ends, ← stays]
          rfl
        · rename_i direct
          cases turned
          rw [scan_literal found line column within direct]
          simp [Sighting.next_within within, Sighting.delimiter?]
    | code =>
        dsimp only at turned
        split at turned
        · rename_i opens
          cases turned
          obtain ⟨rfl, slash⟩ := opens
          obtain ⟨behind, rfl⟩ := List.head?_eq_some_iff.mp slash
          exact scan_opensLine found behind line column
        · split at turned
          · cases turned
          · rename_i unlined unblocked
            cases turned
            rw [scan_uncommented found line column within unlined unblocked]
            simp [Sighting.next_within within]

end Scan

/-- What the scanner finds are the delimiters that are sighted in code. -/
theorem scan_eq_sightings (found : List Delimiter) (region : Region) (line column : UInt32)
    (text : List Char) :
    scan found region line column text =
      ((sightings region line column text).filterMap Sighting.delimiter?).reverse ++ found := by
  induction region, line, column, text using sightings.induct generalizing found with
  | case1 region line column => simp [scan, sightings]
  | case2 region line column char seen after along more beside turned ih =>
      obtain ⟨within, alongWithin, opens⟩ := taken_along turned
      have counted : beside.line = line ∧ beside.column = column + 1 + 1 := by
        simp [beside, seen, Sighting.next_within within, Sighting.next_within alongWithin]
      have nothing (place : Sighting) (isRegion : place.region = region)
          (isTaken : place.char = char ∨ place.char = along) : place.delimiter? = none := by
        by_cases inCode : region = .code
        · obtain ⟨rfl, rfl⟩ := opens inCode
          apply Sighting.delimiter?_of_plain
          rcases isTaken with isSlash | isStar
          · rw [isSlash]; decide
          · rw [isStar]; decide
        · exact Sighting.delimiter?_of_not_code (isRegion ▸ inCode)
      have first := nothing seen (Sighting.next_region ..) (.inl (Sighting.next_char ..))
      have second := nothing beside (Sighting.next_region ..) (.inr (Sighting.next_char ..))
      rw [scan_along found line column turned, sightings_along line column more turned,
        List.filterMap_cons_none first, List.filterMap_cons_none second, ← ih, counted.1,
        counted.2]
  | case3 region line column char seen after taken rest alone turned ih =>
      obtain rfl := taken_eq_false turned alone
      rw [scan_alone found line column turned, sightings_alone line column turned, ih,
        List.filterMap_cons]
      cases seen.delimiter? <;> simp [seen]

theorem inCode_eq (text : String) : inCode text = (sighted text).filterMap Sighting.delimiter? := by
  unfold inCode
  rw [scan_eq_sightings, List.append_nil, List.reverse_reverse]
  rfl

theorem mem_inCode {text : String} {delimiter : Delimiter} :
    delimiter ∈ inCode text ↔
      ⟨delimiter.char, .code, delimiter.line, delimiter.column⟩ ∈ sighted text ∧
        isDelimiter delimiter.char = true := by
  rw [inCode_eq, List.mem_filterMap]
  constructor
  · rintro ⟨seen, member, delimits⟩
    obtain ⟨rfl, isDelimiter⟩ := Sighting.delimiter?_eq_some_iff.mp delimits
    exact ⟨member, isDelimiter⟩
  · rintro ⟨member, isDelimiter⟩
    exact ⟨_, member, Sighting.delimiter?_eq_some_iff.mpr ⟨rfl, isDelimiter⟩⟩

end Reanalysis.Delimiters
