/-
Where code is. A reading cuts a text from left to right into code, comments and literals;
every text has exactly one, and what the scanner finds are the delimiters in its code.
-/

import Reanalysis.Engine.Delimiters

namespace Reanalysis.Delimiters

def pairs : List (Char × Char) := [('(', ')'), ('[', ']'), ('\x7b', '\x7d')]

def EndsLine (rest : List Char) : Prop := rest = [] ∨ ∃ later, rest = '\n' :: later

/-- The inside of a literal that `rest` stands behind. A backslash escapes the character behind
it, but not the end of a line; no quote of the literal is left unescaped, and only between
backticks there are further lines. -/
inductive Inside (quote : Char) (rest : List Char) : List Char → Prop
  | nil : Inside quote rest []
  | plain (char : Char) (body : List Char) (other : char ≠ quote) (direct : char ≠ '\\')
      (within : char = '\n' → quote = '\x60') (inside : Inside quote rest body) :
      Inside quote rest (char :: body)
  | escaped (char : Char) (body : List Char) (within : char ≠ '\n')
      (inside : Inside quote rest body) : Inside quote rest ('\\' :: char :: body)
  | idle (body : List Char) (ends : EndsLine (body ++ rest)) (inside : Inside quote rest body) :
      Inside quote rest ('\\' :: body)

/-- A reading of a text, with the delimiters in its code. Comments and literals may be left open
at the end of the text, and literals in single or double quotes at the end of their line. -/
inductive Reads : List Char → List Char → Prop
  | done : Reads [] []
  | delimiter (char : Char) (rest found : List Char)
      (delimits : char ∈ pairs.map Prod.fst ∨ char ∈ pairs.map Prod.snd)
      (later : Reads rest found) : Reads (char :: rest) (char :: found)
  | other (char : Char) (rest found : List Char)
      (plain : ¬(char ∈ pairs.map Prod.fst ∨ char ∈ pairs.map Prod.snd))
      (unquoted : char ∉ ['"', '\'', '\x60'])
      (uncommented : ∀ mark ∈ ['/', '*'], ¬['/', mark] <+: char :: rest)
      (later : Reads rest found) : Reads (char :: rest) found
  | lineComment (body rest found : List Char) (within : '\n' ∉ body) (ends : EndsLine rest)
      (later : Reads rest found) : Reads ('/' :: '/' :: (body ++ rest)) found
  | blockComment (body rest found : List Char) (first : ¬['*', '/'] <:+: body)
      (later : Reads rest found) : Reads ('/' :: '*' :: (body ++ '*' :: '/' :: rest)) found
  | openComment (body : List Char) (endless : ¬['*', '/'] <:+: body) :
      Reads ('/' :: '*' :: body) []
  | literal (quote : Char) (body rest found : List Char) (opens : quote ∈ ['"', '\'', '\x60'])
      (inside : Inside quote (quote :: rest) body) (later : Reads rest found) :
      Reads (quote :: (body ++ quote :: rest)) found
  | openLiteral (quote : Char) (body rest found : List Char)
      (opens : quote ∈ ['"', '\'', '\x60']) (inside : Inside quote rest body)
      (ends : rest = [] ∨ quote ≠ '\x60' ∧ EndsLine rest) (later : Reads rest found) :
      Reads (quote :: (body ++ rest)) found

theorem isDelimiter_iff {char : Char} :
    isDelimiter char = true ↔ char ∈ pairs.map Prod.fst ∨ char ∈ pairs.map Prod.snd := by
  simp [isDelimiter, isOpener, isCloser, pairs, or_assoc]

theorem isQuote_iff {char : Char} : isQuote char = true ↔ char ∈ ['"', '\'', '\x60'] := by
  simp [isQuote, or_assoc]

theorem isQuote_of_isDelimiter {char : Char} (delimits : isDelimiter char = true) :
    isQuote char = false := by
  rcases isDelimiter_iff.mp delimits with opens | closes
  · simp only [pairs, List.map_cons, List.map_nil, List.mem_cons, List.not_mem_nil, or_false]
      at opens
    rcases opens with rfl | rfl | rfl <;> decide
  · simp only [pairs, List.map_cons, List.map_nil, List.mem_cons, List.not_mem_nil, or_false]
      at closes
    rcases closes with rfl | rfl | rfl <;> decide

section Scan

attribute [local simp] scan

variable (found : List Delimiter) {quote : Char} {body rest : List Char}

theorem scan_endsLine {region : Region} (ends : EndsLine rest) (left : region.nextLine = .code)
    (line column : UInt32) :
    scan found region line column rest = scan found .code line column rest := by
  rcases ends with rfl | ⟨later, rfl⟩
  · simp
  · simp only [scan, left]
    rfl

theorem scan_lineComment (body : List Char) (within : '\n' ∉ body) (ends : EndsLine rest)
    (line column : UInt32) :
    ∃ after, scan found .lineComment line column (body ++ rest) =
      scan found .code line after rest := by
  induction body generalizing column with
  | nil => exact ⟨column, scan_endsLine found ends rfl line column⟩
  | cons char others ih =>
      rw [List.mem_cons, not_or] at within
      simpa [Ne.symm within.1] using ih within.2 (column + 1)

theorem not_star_slash (first : ¬['*', '/'] <:+: body) {char : Char} {others : List Char}
    (cut : body = char :: others) :
    (∀ after, char = '*' → others = '/' :: after → False) ∧ ¬['*', '/'] <:+: others := by
  subst cut
  constructor
  · rintro after rfl rfl
    exact first (List.prefix_append ['*', '/'] after).isInfix
  · exact fun later => first (later.trans (List.suffix_cons char others).isInfix)

theorem scan_commented (rest : List Char) (first : ¬['*', '/'] <:+: body)
    (apart : ∀ after, body.getLast? = some '*' → rest ≠ '/' :: after) (line column : UInt32) :
    ∃ below after, scan found .blockComment line column (body ++ rest) =
      scan found .blockComment below after rest := by
  induction body generalizing line column with
  | nil => exact ⟨line, column, rfl⟩
  | cons char others ih =>
      obtain ⟨unended, later⟩ := not_star_slash first rfl
      have apartLater : ∀ after, others.getLast? = some '*' → rest ≠ '/' :: after := by
        intro after last
        apply apart
        rw [List.getLast?_cons, last]
        rfl
      rw [List.cons_append]
      by_cases isFeed : char = '\n'
      · simpa [isFeed, Region.nextLine] using ih later apartLater (line + 1) 0
      · rw [scan.eq_5 _ _ _ _ _ isFeed]
        · exact ih later apartLater line (column + 1)
        · intro after isStar slash
          cases others with
          | nil => exact apart after (by rw [isStar]; rfl) slash
          | cons next more =>
              obtain ⟨isSlash, _more⟩ := List.cons.inj slash
              exact unended more isStar (by rw [isSlash])

theorem scan_blockComment (rest : List Char) (first : ¬['*', '/'] <:+: body)
    (line column : UInt32) :
    ∃ below after, scan found .blockComment line column (body ++ '*' :: '/' :: rest) =
      scan found .code below after rest := by
  obtain ⟨below, after, went⟩ := scan_commented found ('*' :: '/' :: rest) first (by simp)
    line column
  exact ⟨below, after + 1 + 1, went.trans (by simp)⟩

theorem scan_openComment (endless : ¬['*', '/'] <:+: body) (line column : UInt32) :
    scan found .blockComment line column body = found := by
  obtain ⟨below, after, went⟩ := scan_commented found [] endless (by simp) line column
  simpa using went

theorem scan_opensLine (text : List Char) (line column : UInt32) :
    scan found .code line column ('/' :: '/' :: text) =
      scan found .lineComment line (column + 1) ('/' :: text) := by
  simp

theorem scan_opensBlock (text : List Char) (line column : UInt32) :
    scan found .code line column ('/' :: '*' :: text) =
      scan found .blockComment line (column + 1 + 1) text := by
  simp

theorem scan_literal {char : Char} (line column : UInt32) (within : char ≠ '\n')
    (direct : char ≠ '\\') :
    scan found (.literal quote) line column (char :: rest) =
      scan found (if char = quote then .code else .literal quote) line (column + 1) rest := by
  rw [scan.eq_def]
  split
  · cases ‹_ :: _ = []›
  · cases ‹char :: rest = _›
    exact absurd rfl within
  · cases ‹char :: rest = _›
    dsimp only
    rw [if_neg direct]
    split <;> rfl

theorem scan_escaped {char : Char} (within : char ≠ '\n') (line column : UInt32) :
    scan found (.literal quote) line column ('\\' :: char :: rest) =
      scan found (.literal quote) line (column + 1 + 1) rest := by
  simp [within]

theorem scan_idle (ends : EndsLine rest) (line column : UInt32) :
    scan found (.literal quote) line column ('\\' :: rest) =
      scan found (.literal quote) line (column + 1) rest := by
  rcases ends with rfl | ⟨later, rfl⟩ <;> simp

theorem scan_inside (inside : Inside quote rest body) (line column : UInt32) :
    ∃ below after, scan found (.literal quote) line column (body ++ rest) =
      scan found (.literal quote) below after rest := by
  induction inside generalizing line column with
  | nil => exact ⟨line, column, rfl⟩
  | plain char body other direct within inside ih =>
      rw [List.cons_append]
      by_cases isFeed : char = '\n'
      · simpa [isFeed, Region.nextLine, within isFeed] using ih (line + 1) 0
      · rw [scan_literal found line column isFeed direct, if_neg other]
        exact ih line (column + 1)
  | escaped char body within inside ih =>
      rw [List.cons_append, List.cons_append, scan_escaped found within]
      exact ih line (column + 1 + 1)
  | idle body ends inside ih =>
      rw [List.cons_append, scan_idle found ends]
      exact ih line (column + 1)

theorem scan_code {char : Char} (line column : UInt32)
    (uncommented : ∀ mark ∈ ['/', '*'], ¬['/', mark] <+: char :: rest)
    (unquoted : isQuote char = false) :
    ∃ below after, scan found .code line column (char :: rest) =
      scan (if isDelimiter char = true then ⟨char, line, column + 1⟩ :: found else found) .code
        below after rest := by
  by_cases isFeed : char = '\n'
  · subst isFeed
    exact ⟨line + 1, 0, by rw [scan]; rfl⟩
  · refine ⟨line, column + 1, ?_⟩
    rw [scan.eq_10 _ _ _ _ _ isFeed, unquoted, if_neg Bool.false_ne_true]
    · split <;> rfl
    · rintro after rfl rfl
      exact uncommented '/' (by decide) (List.prefix_append ['/', '/'] after)
    · rintro after rfl rfl
      exact uncommented '*' (by decide) (List.prefix_append ['/', '*'] after)

theorem scan_quote (quoted : isQuote quote = true) (line column : UInt32) :
    scan found .code line column (quote :: rest) =
      scan found (.literal quote) line (column + 1) rest := by
  rw [scan, quoted, if_pos rfl]
  · rintro rfl
    cases quoted
  · rintro after rfl
    cases quoted
  · rintro after rfl
    cases quoted

end Scan

/-! ### The scanner reads -/

theorem chars_scan {text delimiters : List Char} (reads : Reads text delimiters)
    (found : List Delimiter) (line column : UInt32) :
    (scan found .code line column text).map Delimiter.char =
      delimiters.reverse ++ found.map Delimiter.char := by
  induction reads generalizing found line column with
  | done => simp [scan]
  | delimiter char rest inRest delimits later ih =>
      have isDelimiter := isDelimiter_iff.mpr delimits
      have uncommented : ∀ mark ∈ ['/', '*'], ¬['/', mark] <+: char :: rest := by
        intro mark _listed leads
        rw [List.cons_prefix_cons] at leads
        rw [← leads.1] at isDelimiter
        cases isDelimiter
      obtain ⟨below, after, went⟩ := scan_code found line column uncommented
        (isQuote_of_isDelimiter isDelimiter)
      rw [went, if_pos isDelimiter, ih]
      simp
  | other char rest inRest plain unquoted uncommented later ih =>
      have isPlain : ¬isDelimiter char = true := fun delimits => plain (isDelimiter_iff.mp delimits)
      obtain ⟨below, after, went⟩ := scan_code found line column uncommented
        (Bool.eq_false_iff.mpr fun quoted => unquoted (isQuote_iff.mp quoted))
      rw [went, if_neg isPlain, ih]
  | lineComment body rest inRest within ends later ih =>
      obtain ⟨after, went⟩ := scan_lineComment found ('/' :: body)
        (by simpa using within) ends line (column + 1)
      rw [scan_opensLine, ← List.cons_append, went, ih]
  | blockComment body rest inRest first later ih =>
      obtain ⟨below, after, went⟩ := scan_blockComment found rest first line (column + 1 + 1)
      rw [scan_opensBlock, went, ih]
  | openComment body endless =>
      rw [scan_opensBlock, scan_openComment found endless]
      rfl
  | literal quote body rest inRest opens inside later ih =>
      obtain ⟨below, after, went⟩ := scan_inside found inside line (column + 1)
      have quoted := isQuote_iff.mpr opens
      rw [scan_quote found quoted, went, scan_literal, if_pos rfl, ih]
      · rintro rfl
        cases quoted
      · rintro rfl
        cases quoted
  | openLiteral quote body rest inRest opens inside ends later ih =>
      obtain ⟨below, after, went⟩ := scan_inside found inside line (column + 1)
      rw [scan_quote found (isQuote_iff.mpr opens), went]
      rcases ends with rfl | ⟨onLine, ends⟩
      · simpa [scan] using ih found line column
      · have left : Region.nextLine (.literal quote) = .code := if_neg onLine
        rw [scan_endsLine found ends left, ih]

theorem exists_line (text : List Char) :
    ∃ body rest, text = body ++ rest ∧ '\n' ∉ body ∧ EndsLine rest := by
  induction text with
  | nil => exact ⟨[], [], rfl, List.not_mem_nil, .inl rfl⟩
  | cons char others ih =>
      by_cases isFeed : char = '\n'
      · exact ⟨[], char :: others, rfl, List.not_mem_nil, .inr ⟨others, by rw [isFeed]⟩⟩
      · obtain ⟨body, rest, rfl, within, ends⟩ := ih
        refine ⟨char :: body, rest, rfl, ?_, ends⟩
        rw [List.mem_cons, not_or]
        exact ⟨Ne.symm isFeed, within⟩

theorem exists_comment (text : List Char) :
    (∃ body rest, text = body ++ '*' :: '/' :: rest ∧ ¬['*', '/'] <:+: body) ∨
      ¬['*', '/'] <:+: text := by
  induction text with
  | nil => exact .inr (by simp)
  | cons char others ih =>
      by_cases here : ['*', '/'] <+: char :: others
      · obtain ⟨rest, cut⟩ := here
        exact .inl ⟨[], rest, cut.symm, by simp⟩
      · rcases ih with ⟨body, rest, rfl, first⟩ | endless
        · refine .inl ⟨char :: body, rest, rfl, fun within => ?_⟩
          rcases List.infix_cons_iff.mp within with leads | later
          · exact here (leads.trans (by simp))
          · exact first later
        · refine .inr fun within => ?_
          rcases List.infix_cons_iff.mp within with leads | later
          · exact here leads
          · exact endless later

theorem exists_literal (quote : Char) (text : List Char) :
    ∃ body rest, text = body ++ rest ∧ Inside quote rest body ∧
      ((∃ later, rest = quote :: later) ∨ rest = [] ∨ quote ≠ '\x60' ∧ EndsLine rest) := by
  induction size : text.length using Nat.strongRecOn generalizing text with
  | ind length ih =>
      cases text with
      | nil => exact ⟨[], [], rfl, .nil, .inr (.inl rfl)⟩
      | cons char others =>
          have extend (front behind : List Char) (cut : others = front ++ behind) :=
            ih behind.length (by subst cut; simp at size; omega) behind rfl
          by_cases closes : char = quote
          · exact ⟨[], char :: others, rfl, .nil, .inl ⟨others, by rw [closes]⟩⟩
          by_cases stops : quote ≠ '\x60' ∧ char = '\n'
          · exact ⟨[], char :: others, rfl, .nil,
              .inr (.inr ⟨stops.1, .inr ⟨others, by rw [stops.2]⟩⟩)⟩
          by_cases escapes : char = '\\'
          · subst escapes
            by_cases ends : EndsLine others
            · obtain ⟨body, rest, rfl, inside, ended⟩ := extend [] others rfl
              exact ⟨'\\' :: body, rest, rfl, .idle body ends inside, ended⟩
            · cases others with
              | nil => exact absurd (.inl rfl) ends
              | cons next more =>
                  obtain ⟨body, rest, rfl, inside, ended⟩ := extend [next] more rfl
                  refine ⟨'\\' :: next :: body, rest, rfl, .escaped next body ?_ inside, ended⟩
                  rintro rfl
                  exact ends (.inr ⟨_, rfl⟩)
          · obtain ⟨body, rest, rfl, inside, ended⟩ := extend [] others rfl
            refine ⟨char :: body, rest, rfl, .plain char body closes escapes ?_ inside, ended⟩
            exact fun isFeed =>
              Decidable.byContradiction fun onLine => stops ⟨onLine, isFeed⟩

theorem exists_reads (text : List Char) : ∃ delimiters, Reads text delimiters := by
  induction size : text.length using Nat.strongRecOn generalizing text with
  | ind length ih =>
      cases text with
      | nil => exact ⟨[], .done⟩
      | cons char others =>
          have read (front rest : List Char) (cut : others = front ++ rest) :=
            ih rest.length (by subst cut; simp at size; omega) rest rfl
          by_cases quoted : char ∈ ['"', '\'', '\x60']
          · obtain ⟨body, rest, rfl, inside, ended⟩ := exists_literal char others
            rcases ended with ⟨later, rfl⟩ | ends
            · obtain ⟨found, reads⟩ := read (body ++ [char]) later (by simp)
              exact ⟨found, .literal char body later found quoted inside reads⟩
            · obtain ⟨found, reads⟩ := read body rest rfl
              exact ⟨found, .openLiteral char body rest found quoted inside ends reads⟩
          by_cases commented : ∃ mark ∈ ['/', '*'], ['/', mark] <+: char :: others
          · obtain ⟨mark, listed, behind, cut⟩ := commented
            cases cut
            simp only [List.mem_cons, List.not_mem_nil, or_false] at listed
            rcases listed with rfl | rfl
            · obtain ⟨body, rest, rfl, within, ends⟩ := exists_line behind
              obtain ⟨found, reads⟩ := read ('/' :: body) rest rfl
              exact ⟨found, .lineComment body rest found within ends reads⟩
            · rcases exists_comment behind with ⟨body, rest, rfl, first⟩ | endless
              · obtain ⟨found, reads⟩ := read ('*' :: body ++ ['*', '/']) rest (by simp)
                exact ⟨found, .blockComment body rest found first reads⟩
              · exact ⟨[], .openComment behind endless⟩
          · obtain ⟨found, reads⟩ := read [] others rfl
            by_cases delimits : char ∈ pairs.map Prod.fst ∨ char ∈ pairs.map Prod.snd
            · exact ⟨char :: found, .delimiter char others found delimits reads⟩
            · exact ⟨found, .other char others found delimits quoted
                (fun mark listed leads => commented ⟨mark, listed, leads⟩) reads⟩

/-- A text has one reading, which is the scanner's. -/
theorem reads_iff {text : String} {delimiters : List Char} :
    Reads text.toList delimiters ↔ delimiters = (inCode text).map Delimiter.char := by
  have found {delimiters : List Char} (reads : Reads text.toList delimiters) :
      delimiters = (inCode text).map Delimiter.char := by
    have scanned := chars_scan reads [] 1 0
    rw [List.map_nil, List.append_nil] at scanned
    rw [inCode, List.map_reverse, scanned, List.reverse_reverse]
  constructor
  · exact found
  · rintro rfl
    obtain ⟨delimiters, reads⟩ := exists_reads text.toList
    rw [← found reads]
    exact reads

end Reanalysis.Delimiters
