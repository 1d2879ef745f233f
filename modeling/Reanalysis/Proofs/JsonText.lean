/-
The text of a value is read as the document that the value is, whatever stands behind it
that cannot be more of a number. Numbers are whole here: doubles are written as the shortest
text that reads back as the same double, and nothing is said about that. The text holds no
control characters, so it stands on one line.
-/

import Mathlib.Data.List.TakeWhile
import Reanalysis.Json.Printer
import Reanalysis.Json.Reader

namespace Reanalysis.Json

mutual

def IsWhole : Json → Prop
  | .number (.integer value) => -Nat.pow 2 63 ≤ value ∧ value < Nat.pow 2 64
  | .number (.double _) => False
  | .array items => AreWhole items
  | .object fields => FieldsWhole fields
  | .null => True
  | .bool _ => True
  | .string _ => True

def AreWhole : List Json → Prop
  | [] => True
  | item :: rest => item.IsWhole ∧ AreWhole rest

def FieldsWhole : List (String × Json) → Prop
  | [] => True
  | (_, value) :: rest => value.IsWhole ∧ FieldsWhole rest

end

theorem isWhole_of_mem {items : List Json} (whole : AreWhole items) :
    ∀ item ∈ items, item.IsWhole := by
  induction items with
  | nil => exact fun _ member => (List.not_mem_nil member).elim
  | cons first rest ih =>
      intro item member
      rcases List.mem_cons.mp member with rfl | later
      · exact whole.1
      · exact ih whole.2 item later

namespace Reader

/-- A reader finds a value at the front of its input, and leaves the rest. -/
def Reads {α : Type} {input : List Char} (found : Option (α × Rest input)) (value : α)
    (rest : List Char) : Prop :=
  ∃ shorter, found = some (value, ⟨rest, shorter⟩)

def EndsNumber (rest : List Char) : Prop :=
  ∀ char ∈ rest.head?, ¬char.isDigit ∧ char ≠ '.' ∧ char ≠ 'e' ∧ char ≠ 'E'

theorem digits_append {written rest : List Char} (all : ∀ char ∈ written, char.isDigit)
    (ends : EndsNumber rest) : digits (written ++ rest) = (written, rest) := by
  unfold digits
  rw [List.takeWhile_append_of_pos all, List.dropWhile_append_of_pos all]
  cases rest with
  | nil => rw [List.takeWhile_nil, List.dropWhile_nil, List.append_nil]
  | cons char later =>
      have stops := (ends char rfl).1
      rw [List.takeWhile_cons_of_neg stops, List.dropWhile_cons_of_neg stops, List.append_nil]

theorem gather_eq (written : List Char) (significand : Nat)
    (small : Nat.ofDigitChars 10 written significand < Nat.pow 2 64) :
    gather significand written = (Nat.ofDigitChars 10 written significand, []) := by
  induction written generalizing significand with
  | nil => rfl
  | cons char later ih =>
      rw [Nat.ofDigitChars_cons, Nat.mul_comm] at small ⊢
      have within : significand * 10 + digitOf char < Nat.pow 2 64 := by
        refine Nat.lt_of_le_of_lt ?_ small
        rw [Nat.ofDigitChars_eq_ofDigitChars_zero]
        have one_le : 1 ≤ 10 ^ later.length := Nat.one_le_pow _ _ (by decide)
        have grown := Nat.mul_le_mul_right (significand * 10 + digitOf char) one_le
        rw [Nat.one_mul] at grown
        exact Nat.le_add_right_of_le grown
      unfold gather
      dsimp only
      rw [if_pos within]
      exact ih _ small

theorem head?_toDigits {value : Nat} (positive : 0 < value) :
    (Nat.toDigits 10 value).head? ≠ some '0' := by
  induction value using Nat.strongRecOn with
  | _ value ih =>
      rw [Nat.toDigits_eq_if (by decide)]
      split
      · rename_i small
        have written : ∀ digit < 10, 0 < digit → [digit.digitChar].head? ≠ some '0' := by decide
        exact written value small positive
      · rename_i large
        have front := ih (value / 10) (by omega) (by omega)
        cases written : Nat.toDigits 10 (value / 10) with
        | nil => exact absurd written Nat.toDigits_ne_nil
        | cons first later =>
            rw [written] at front
            exact front

theorem fraction_of_ends {rest : List Char} (ends : EndsNumber rest) :
    fraction rest = some (none, ⟨rest, Nat.le_refl _⟩) := by
  unfold fraction
  split
  · exact absurd rfl (ends '.' rfl).2.1
  · rfl

theorem exponent_of_ends {rest : List Char} (ends : EndsNumber rest) :
    exponent rest = some (none, ⟨rest, Nat.le_refl _⟩) := by
  cases rest with
  | nil => rfl
  | cons char later =>
      have other : ¬(char = 'e' ∨ char = 'E') := not_or.mpr (ends char rfl).2.2
      simp only [exponent, if_neg other]

theorem unsignedNumeral_toDigits (negative : Bool) (value : Nat) {rest : List Char}
    (ends : EndsNumber rest) :
    Reads (unsignedNumeral negative (Nat.toDigits 10 value ++ rest))
      ⟨negative, Nat.toDigits 10 value, none, none⟩ rest := by
  have all : ∀ char ∈ Nat.toDigits 10 value, char.isDigit :=
    fun char member => Nat.isDigit_of_mem_toDigits (by decide) (by decide) member
  have alone : (Nat.toDigits 10 value).head? = some '0' → Nat.toDigits 10 value = ['0'] := by
    intro zero
    have nothing : value = 0 := Nat.eq_zero_of_not_pos fun positive => head?_toDigits positive zero
    rw [nothing, Nat.toDigits_zero]
  cases written : Nat.toDigits 10 value with
  | nil => exact absurd written Nat.toDigits_ne_nil
  | cons first later =>
      rw [written] at all alone
      have more : (if first = '0' then ([], later ++ rest) else digits (later ++ rest)) =
          (later, rest) := by
        split
        · rename_i zero
          cases alone (congrArg some zero)
          rfl
        · exact digits_append (fun char member => all char (List.mem_cons_of_mem _ member)) ends
      have noDigit : ¬(first = '0' ∧ (later ++ rest).head?.any Char.isDigit) := by
        rintro ⟨zero, digit⟩
        cases alone (congrArg some zero)
        obtain ⟨char, here, isDigit⟩ := Option.any_eq_true _ _ |>.mp digit
        exact (ends char here).1 isDigit
      have shorter : rest.length < (first :: (later ++ rest)).length := by
        rw [List.length_cons, List.length_append]
        omega
      refine ⟨shorter, ?_⟩
      change unsignedNumeral negative (first :: (later ++ rest)) = _
      have behind : EndsNumber
          (if first = '0' then ([], later ++ rest) else digits (later ++ rest)).2 := by
        rw [more]
        exact ends
      simp only [unsignedNumeral, if_pos (all first List.mem_cons_self), if_neg noDigit,
        fraction_of_ends behind, exponent_of_ends behind]
      simp only [more]

theorem value?_toDigits {negative : Bool} {value : Nat} (small : value < Nat.pow 2 64)
    (signed : negative → 0 < value ∧ value ≤ Nat.pow 2 63) :
    Numeral.value? ⟨negative, Nat.toDigits 10 value, none, none⟩ =
      some (.integer (if negative then -(value : Int) else value)) := by
  have back : Nat.ofDigitChars 10 (Nat.toDigits 10 value) 0 = value :=
    Nat.ofDigitChars_ten_toDigits
  have gathered := gather_eq (Nat.toDigits 10 value) 0
    (by rw [back]; exact small)
  rw [back] at gathered
  unfold Numeral.value?
  dsimp only
  rw [gathered]
  dsimp only
  cases negative with
  | false => rfl
  | true =>
      have bounds := signed rfl
      rw [if_pos rfl, if_neg]
      · rfl
      · omega

theorem numeral_toDigits (value : Nat) {rest : List Char} (ends : EndsNumber rest) :
    Reads (numeral (Nat.toDigits 10 value ++ rest)) ⟨false, Nat.toDigits 10 value, none, none⟩
      rest := by
  have unsigned := unsignedNumeral_toDigits false value ends
  have all : ∀ char ∈ Nat.toDigits 10 value, char.isDigit :=
    fun char member => Nat.isDigit_of_mem_toDigits (by decide) (by decide) member
  cases written : Nat.toDigits 10 value with
  | nil => exact absurd written Nat.toDigits_ne_nil
  | cons first later =>
      rw [written] at unsigned all
      have same : numeral (first :: (later ++ rest)) =
          unsignedNumeral false (first :: (later ++ rest)) := by
        rw [numeral]
        rintro behind minus
        cases minus
        exact absurd (all '-' List.mem_cons_self) (by decide)
      rw [List.cons_append] at unsigned ⊢
      rw [same]
      exact unsigned

theorem numeral_minus {input rest : List Char} {found : Numeral}
    (unsigned : Reads (unsignedNumeral true input) found rest) :
    Reads (numeral ('-' :: input)) found rest := by
  obtain ⟨shorter, read⟩ := unsigned
  refine ⟨Nat.lt_succ_of_lt shorter, ?_⟩
  rw [numeral, read]
  rfl

theorem numeral_text {value : Int} (least : -Nat.pow 2 63 ≤ value)
    (greatest : value < Nat.pow 2 64) {rest : List Char} (ends : EndsNumber rest) :
    ∃ found, Reads (numeral ((toString value).toList ++ rest)) found rest ∧
      found.value? = some (.integer value) := by
  have written : toString value = value.repr := rfl
  rw [written, Int.repr_eq_if]
  by_cases natural : 0 ≤ value
  · rw [if_pos natural, Nat.repr_eq_ofList_toDigits, String.toList_ofList]
    refine ⟨_, numeral_toDigits value.toNat ends, ?_⟩
    rw [value?_toDigits (by omega) (fun below => absurd below Bool.false_ne_true)]
    simp [Int.toNat_of_nonneg natural]
  · rw [if_neg natural, String.toList_append, Nat.repr_eq_ofList_toDigits, String.toList_ofList,
      String.toList_ofList]
    refine ⟨_, numeral_minus (unsignedNumeral_toDigits true (-value).toNat ends), ?_⟩
    have half : Nat.pow 2 63 < Nat.pow 2 64 := by decide
    rw [value?_toDigits (by omega) (by omega)]
    simp
    omega

def pieceOf (char : Char) : Piece :=
  if char ∈ ['\x08', '\x0c', '\n', '\r', '\t'] then .char char
  else if char < ' ' then .unit char.toNat else .char char

inductive Escaped (char : Char) : List Char → Piece → Prop
  | plain (noQuote : char ≠ '"') (noEscape : char ≠ '\\') (noControl : ¬char < ' ') :
      Escaped char [char] (.char char)
  | named (written : Char) (known : escaped? written = some char) (other : written ≠ 'u') :
      Escaped char ['\\', written] (.char char)
  | numbered (control : char < ' ') :
      Escaped char
        ['\\', 'u', '0', '0', lowHexDigit (char.toNat / 16), lowHexDigit (char.toNat % 16)]
        (.unit char.toNat)

theorem escaped_escape (char : Char) : Escaped char (escape char) (pieceOf char) := by
  by_cases known : char ∈ ['"', '\\', '\x08', '\x0c', '\n', '\r', '\t']
  · simp only [List.mem_cons, List.not_mem_nil, or_false] at known
    rcases known with rfl | rfl | rfl | rfl | rfl | rfl | rfl
    all_goals exact .named _ rfl (by decide)
  · simp only [List.mem_cons, List.not_mem_nil, or_false, not_or] at known
    obtain ⟨noQuote, noEscape, others⟩ := known
    unfold escape pieceOf
    simp only [List.mem_cons, List.not_mem_nil, or_false, others, noQuote, noEscape, if_false]
    split
    · exact .numbered ‹_›
    · exact .plain noQuote noEscape ‹_›

theorem hexUnit?_control {char : Char} (control : char < ' ') :
    hexUnit? '0' '0' (lowHexDigit (char.toNat / 16)) (lowHexDigit (char.toNat % 16)) =
      some char.toNat := by
  have small : char.toNat < 32 := control
  have written : ∀ code < 32, hexUnit? '0' '0' (lowHexDigit (code / 16)) (lowHexDigit (code % 16)) =
      some code := by decide
  exact written char.toNat small

theorem Escaped.pieces {char : Char} {written : List Char} {piece : Piece}
    (escaped : Escaped char written piece) {read found : List Piece} {input rest : List Char}
    (later : Reads (pieces (piece :: read) input) found rest) :
    Reads (Reader.pieces read (written ++ input)) found rest := by
  obtain ⟨shorter, behind⟩ := later
  cases escaped with
  | plain noQuote noEscape noControl =>
      refine ⟨Nat.lt_succ_of_lt shorter, ?_⟩
      change Reader.pieces read (char :: input) = _
      rw [Reader.pieces]
      · simp only [noControl, noEscape, or_self, if_false, behind]
      · exact noQuote
      · rintro first second third fourth rest rfl
        exact absurd rfl noEscape
      · rintro next rest rfl
        exact absurd rfl noEscape
  | named written known other =>
      refine ⟨Nat.lt_succ_of_lt (Nat.lt_succ_of_lt shorter), ?_⟩
      change Reader.pieces read ('\\' :: written :: input) = _
      rw [Reader.pieces]
      · simp only [known, behind]
      · rintro first second third fourth rest rfl
        exact absurd rfl other
  | numbered control =>
      refine ⟨?_, ?_⟩
      · change rest.length < input.length + 6
        omega
      · change Reader.pieces read ('\\' :: 'u' :: '0' :: '0' :: _ :: _ :: input) = _
        rw [Reader.pieces]
        simp only [hexUnit?_control control, behind]

theorem pieces_quoted (chars : List Char) (read : List Piece) (rest : List Char) :
    Reads (pieces read (chars.flatMap escape ++ '"' :: rest))
      ((chars.map pieceOf).reverse ++ read) rest := by
  induction chars generalizing read with
  | nil =>
      change Reads (pieces read ('"' :: rest)) read rest
      exact ⟨Nat.lt_succ_self _, by rw [pieces]⟩
  | cons char later ih =>
      have behind := ih (pieceOf char :: read)
      rw [List.flatMap_cons, List.append_assoc, List.map_cons, List.reverse_cons,
        List.append_assoc]
      exact (escaped_escape char).pieces behind

theorem joinPieces_unit {code : Nat} (small : code < 0xD800) (chars : List Char)
    (rest : List Piece) :
    joinPieces chars (.unit code :: rest) = joinPieces (Char.ofNat code :: chars) rest := by
  have noHigh : isHigh code = false := by simp [isHigh]; omega
  have noLow : isLow code = false := by simp [isLow]; omega
  cases rest with
  | nil => simp [joinPieces, noHigh, noLow]
  | cons piece later => cases piece <;> simp [joinPieces, noHigh, noLow]

theorem joinPieces_map (chars joined : List Char) :
    joinPieces joined (chars.map pieceOf) = some (chars.reverse ++ joined) := by
  induction chars generalizing joined with
  | nil => rfl
  | cons char later ih =>
      have step : joinPieces joined (pieceOf char :: later.map pieceOf) =
          joinPieces (char :: joined) (later.map pieceOf) := by
        have escaped := escaped_escape char
        generalize escape char = written, pieceOf char = piece at escaped ⊢
        cases escaped with
        | plain noQuote noEscape noControl => rw [joinPieces]
        | named written known other => rw [joinPieces]
        | numbered control =>
            have small : char.toNat < 32 := control
            rw [joinPieces_unit (by omega), Char.ofNat_toNat]
      rw [List.map_cons, step, ih, List.reverse_cons, List.append_assoc]
      rfl

theorem text_quoted (string : String) (rest : List Char) :
    Reads (text (string.toList.flatMap escape ++ '"' :: rest)) (some string) rest := by
  obtain ⟨shorter, read⟩ := pieces_quoted string.toList [] rest
  refine ⟨shorter, ?_⟩
  unfold text
  rw [read, List.append_nil, ← List.map_reverse]
  simp only [Option.map_some, joinPieces_map, List.reverse_reverse, List.append_nil,
    String.ofList_toList]

/-! ### Documents -/

theorem front_cons {first : Char} (visible : ¬isBlank first) (rest : List Char) :
    front (first :: rest) = some (first, ⟨rest, Nat.lt_succ_self _⟩) := by
  have skipped : skipBlanks (first :: rest) = first :: rest :=
    List.dropWhile_cons_of_neg visible
  unfold front
  split
  · rename_i nothing _
    rw [skipped] at nothing
    cases nothing
  · rename_i found _
    rw [skipped] at found
    cases found
    rfl

structure Opens (char : Char) : Prop where
  visible : ¬isBlank char
  noItemsEnd : char ≠ ']'
  noFieldsEnd : char ≠ '\x7d'

theorem opens_of_isDigit {char : Char} (digit : char.isDigit) : Opens char := by
  constructor
  · intro blank
    simp only [isBlank, Bool.or_eq_true, decide_eq_true_eq] at blank
    rcases blank with ((rfl | rfl) | rfl) | rfl <;> exact absurd digit (by decide)
  · rintro rfl
    exact absurd digit (by decide)
  · rintro rfl
    exact absurd digit (by decide)

theorem opens_toString (value : Int) :
    ∃ first later, (toString value).toList = first :: later ∧ (first = '-' ∨ first.isDigit) := by
  have written : toString value = value.repr := rfl
  rw [written, Int.repr_eq_if]
  split
  · rw [Nat.repr_eq_ofList_toDigits, String.toList_ofList]
    cases digits : Nat.toDigits 10 value.toNat with
    | nil => exact absurd digits Nat.toDigits_ne_nil
    | cons first later =>
        have member : first ∈ Nat.toDigits 10 value.toNat := digits ▸ List.mem_cons_self
        exact ⟨first, later, rfl,
          Or.inr (Nat.isDigit_of_mem_toDigits (by decide) (by decide) member)⟩
  · rw [String.toList_append]
    exact ⟨'-', _, rfl, Or.inl rfl⟩

theorem opens_compact {json : Json} (whole : json.IsWhole) :
    ∃ first later, json.compact = first :: later ∧ Opens first := by
  cases json with
  | null => exact ⟨_, _, rfl, by constructor <;> decide⟩
  | bool value => cases value <;> exact ⟨_, _, rfl, by constructor <;> decide⟩
  | number value =>
      cases value with
      | integer value =>
          obtain ⟨first, later, written, minus | digit⟩ := opens_toString value
          · exact ⟨first, later, written, by rw [minus]; constructor <;> decide⟩
          · exact ⟨first, later, written, opens_of_isDigit digit⟩
      | double value => exact whole.elim
  | string text => exact ⟨_, _, rfl, by constructor <;> decide⟩
  | array items => exact ⟨_, _, rfl, by constructor <;> decide⟩
  | object fields => exact ⟨_, _, rfl, by constructor <;> decide⟩

def ReadsBack (json : Json) : Prop :=
  ∀ rest, EndsNumber rest → Reads (document (json.compact ++ rest)) json.document rest

theorem endsNumber_cons {first : Char} (other : ¬first.isDigit ∧ first ≠ '.' ∧ first ≠ 'e' ∧
    first ≠ 'E') (rest : List Char) : EndsNumber (first :: rest) := by
  intro char here
  cases here
  exact other

theorem endsNumber_others {α : Type} (text : α → List Char) (others : List α) {closing : Char}
    (ends : ¬closing.isDigit ∧ closing ≠ '.' ∧ closing ≠ 'e' ∧ closing ≠ 'E') (rest : List Char) :
    EndsNumber (others.flatMap (',' :: text ·) ++ closing :: rest) := by
  cases others with
  | nil => exact endsNumber_cons ends rest
  | cons other others => exact endsNumber_cons (by decide) _

theorem readsBack_string (string : String) : ReadsBack (.string string) := by
  intro rest _ends
  obtain ⟨shorter, read⟩ := text_quoted string rest
  have written : (Json.string string).compact ++ rest =
      '"' :: (string.toList.flatMap escape ++ '"' :: rest) := by
    simp [compact, quoted]
  rw [written]
  refine ⟨Nat.lt_succ_of_lt shorter, ?_⟩
  rw [document, front_cons (by decide)]
  simp only [read]
  rfl

theorem readsBack_null : ReadsBack .null := by
  intro rest _ends
  change Reads (document ('n' :: 'u' :: 'l' :: 'l' :: rest)) _ _
  refine ⟨by simp only [List.length_cons]; omega, ?_⟩
  rw [document, front_cons (by decide)]
  rfl

theorem readsBack_bool (value : Bool) : ReadsBack (.bool value) := by
  intro rest _ends
  cases value with
  | true =>
      change Reads (document ('t' :: 'r' :: 'u' :: 'e' :: rest)) _ _
      refine ⟨by simp only [List.length_cons]; omega, ?_⟩
      rw [document, front_cons (by decide)]
      rfl
  | false =>
      change Reads (document ('f' :: 'a' :: 'l' :: 's' :: 'e' :: rest)) _ _
      refine ⟨by simp only [List.length_cons]; omega, ?_⟩
      rw [document, front_cons (by decide)]
      rfl

theorem readsBack_integer {value : Int} (least : -Nat.pow 2 63 ≤ value)
    (greatest : value < Nat.pow 2 64) : ReadsBack (.number (.integer value)) := by
  intro rest ends
  obtain ⟨found, read, same⟩ := numeral_text least greatest ends
  obtain ⟨first, later, written, opened⟩ := opens_toString value
  have apart : ∀ other ∈ ['[', '\x7b', '"', 'n', 't', 'f'], first ≠ other := by
    rintro other member rfl
    rcases opened with rfl | digit
    · exact absurd member (by decide)
    · simp only [List.mem_cons, List.not_mem_nil, or_false] at member
      rcases member with rfl | rfl | rfl | rfl | rfl | rfl <;> exact absurd digit (by decide)
  have visible : ¬isBlank first := by
    rcases opened with rfl | digit
    · decide
    · exact (opens_of_isDigit digit).visible
  have text : (Json.number (.integer value)).compact = first :: later := written
  rw [written] at read
  rw [text]
  obtain ⟨shorter, numbered⟩ := read
  refine ⟨shorter, ?_⟩
  change numeral (first :: (later ++ rest)) = _ at numbered
  change document (first :: (later ++ rest)) = _
  rw [document, front_cons visible]
  dsimp only
  split
  · exact absurd rfl (apart '[' (by decide))
  · exact absurd rfl (apart '\x7b' (by decide))
  · exact absurd rfl (apart '"' (by decide))
  · rw [if_neg (apart 'n' (by decide)), if_neg (apart 't' (by decide)),
      if_neg (apart 'f' (by decide)), numbered]
    simp only [Option.map_some, same]
    rfl

theorem compactItems_cons (item : Json) (others : List Json) :
    compactItems (item :: others) = item.compact ++ others.flatMap (',' :: ·.compact) := by
  induction others generalizing item with
  | nil => simp [compactItems]
  | cons other others ih =>
      rw [compactItems, ih other, List.flatMap_cons, List.cons_append]
      exact List.cons_ne_nil other others

/-! ### Arrays and objects -/

section Steps

variable {input tail rest : List Char}

theorem reads_array {found : List Document} (inner : Reads (items [] true input) found rest) :
    Reads (document ('[' :: input)) (.array found) rest := by
  obtain ⟨shorter, read⟩ := inner
  refine ⟨Nat.lt_succ_of_lt shorter, ?_⟩
  rw [document, front_cons (by decide)]
  simp only [read]

theorem reads_object {found : List (Option String × Document)}
    (inner : Reads (fields [] true input) found rest) :
    Reads (document ('\x7b' :: input)) (.object found) rest := by
  obtain ⟨shorter, read⟩ := inner
  refine ⟨Nat.lt_succ_of_lt shorter, ?_⟩
  rw [document, front_cons (by decide)]
  simp only [read]

variable {fresh : Bool} {item : Document} {read found : List Document}
  {entry : Option String × Document} {known entries : List (Option String × Document)}

theorem reads_items_end : Reads (items read fresh (']' :: rest)) read.reverse rest := by
  refine ⟨Nat.lt_succ_self _, ?_⟩
  rw [items, front_cons (by decide)]
  simp

theorem reads_items_first {first : Char} (opens : Opens first)
    (next : Reads (document (first :: input)) item tail)
    (later : Reads (items (item :: read) false tail) found rest) :
    Reads (items read true (first :: input)) found rest := by
  obtain ⟨shorter, here⟩ := next
  obtain ⟨less, behind⟩ := later
  refine ⟨Nat.lt_trans less shorter, ?_⟩
  rw [items, front_cons opens.visible]
  simp only [opens.noItemsEnd, if_false, if_true, here, behind]

theorem reads_items_next (next : Reads (document input) item tail)
    (later : Reads (items (item :: read) false tail) found rest) :
    Reads (items read false (',' :: input)) found rest := by
  obtain ⟨shorter, here⟩ := next
  obtain ⟨less, behind⟩ := later
  refine ⟨Nat.lt_succ_of_lt (Nat.lt_trans less shorter), ?_⟩
  rw [items, front_cons (by decide)]
  simp [here, behind]

theorem reads_fields_end : Reads (fields known fresh ('\x7d' :: rest)) known.reverse rest := by
  refine ⟨Nat.lt_succ_self _, ?_⟩
  rw [fields, front_cons (by decide)]
  simp

theorem reads_fields_first {first : Char} (opens : Opens first)
    (next : Reads (field (first :: input)) entry tail)
    (later : Reads (fields (entry :: known) false tail) entries rest) :
    Reads (fields known true (first :: input)) entries rest := by
  obtain ⟨shorter, here⟩ := next
  obtain ⟨less, behind⟩ := later
  refine ⟨Nat.lt_trans less shorter, ?_⟩
  rw [fields, front_cons opens.visible]
  simp only [opens.noFieldsEnd, if_false, if_true, here, behind]

theorem reads_fields_next (next : Reads (field input) entry tail)
    (later : Reads (fields (entry :: known) false tail) entries rest) :
    Reads (fields known false (',' :: input)) entries rest := by
  obtain ⟨shorter, here⟩ := next
  obtain ⟨less, behind⟩ := later
  refine ⟨Nat.lt_succ_of_lt (Nat.lt_trans less shorter), ?_⟩
  rw [fields, front_cons (by decide)]
  simp [here, behind]

theorem reads_field (key : String) {value : Document} (next : Reads (document input) value rest) :
    Reads (field (quoted key ++ ':' :: input)) (some key, value) rest := by
  obtain ⟨shorter, named⟩ := text_quoted key (':' :: input)
  obtain ⟨less, here⟩ := next
  have written : quoted key ++ ':' :: input =
      '"' :: (key.toList.flatMap escape ++ '"' :: ':' :: input) := by
    simp [quoted]
  rw [written]
  refine ⟨?_, ?_⟩
  · simp only [List.length_cons] at shorter ⊢
    omega
  · rw [field, front_cons (by decide)]
    simp only [if_true, named, front_cons (show ¬isBlank ':' by decide), here]

end Steps

theorem readsBack_items {others : List Json} (back : ∀ item ∈ others, ReadsBack item)
    (read : List Document) (rest : List Char) :
    Reads (items read false (others.flatMap (',' :: ·.compact) ++ ']' :: rest))
      (read.reverse ++ documents others) rest := by
  -- The reader collects the items in reverse, so `read` grows as `others` shrinks.
  induction others generalizing read with
  | nil =>
      rw [documents, List.append_nil]
      exact reads_items_end
  | cons item others ih =>
      have later := ih (fun other member => back other (List.mem_cons_of_mem _ member))
        (item.document :: read)
      have ends : EndsNumber (others.flatMap (',' :: ·.compact) ++ ']' :: rest) :=
        endsNumber_others _ _ (by decide) _
      rw [List.reverse_cons, List.append_assoc] at later
      rw [List.flatMap_cons, List.cons_append, List.cons_append, List.append_assoc]
      exact reads_items_next (back item List.mem_cons_self _ ends) later

theorem readsBack_array {values : List Json} (back : ∀ item ∈ values, ReadsBack item)
    (whole : ∀ item ∈ values, item.IsWhole) : ReadsBack (.array values) := by
  intro rest _ends
  cases values with
  | nil => exact reads_array reads_items_end
  | cons item others =>
      have later := readsBack_items
        (fun other member => back other (List.mem_cons_of_mem _ member)) [item.document] rest
      have ends : EndsNumber (others.flatMap (',' :: ·.compact) ++ ']' :: rest) :=
        endsNumber_others _ _ (by decide) _
      have next := back item List.mem_cons_self _ ends
      obtain ⟨start, text, written, opens⟩ := opens_compact (whole item List.mem_cons_self)
      have wholeText : (Json.array (item :: others)).compact ++ rest =
          '[' :: (item.compact ++ (others.flatMap (',' :: ·.compact) ++ ']' :: rest)) := by
        simp [compact, compactItems_cons]
      rw [wholeText]
      rw [written, List.cons_append] at next ⊢
      exact reads_array (reads_items_first opens next later)

def fieldText (entry : String × Json) : List Char := quoted entry.1 ++ ':' :: entry.2.compact

theorem compactFields_cons (entry : String × Json) (others : List (String × Json)) :
    compactFields (entry :: others) = fieldText entry ++ others.flatMap (',' :: fieldText ·) := by
  induction others generalizing entry with
  | nil => simp [compactFields, fieldText]
  | cons other others ih =>
      rw [compactFields, ih other, List.flatMap_cons, List.cons_append]
      · rfl
      · exact List.cons_ne_nil other others

theorem readsBack_field {entry : String × Json} (back : ReadsBack entry.2) {rest : List Char}
    (ends : EndsNumber rest) :
    Reads (field (fieldText entry ++ rest)) (some entry.1, entry.2.document) rest := by
  have next := reads_field entry.1 (back rest ends)
  rw [fieldText, List.append_assoc, List.cons_append]
  exact next

theorem readsBack_fields {others : List (String × Json)}
    (back : ∀ entry ∈ others, ReadsBack entry.2) (read : List (Option String × Document))
    (rest : List Char) :
    Reads (fields read false (others.flatMap (',' :: fieldText ·) ++ '\x7d' :: rest))
      (read.reverse ++ documentFields others) rest := by
  induction others generalizing read with
  | nil =>
      rw [documentFields, List.append_nil]
      exact reads_fields_end
  | cons entry others ih =>
      have later := ih (fun other member => back other (List.mem_cons_of_mem _ member))
        ((some entry.1, entry.2.document) :: read)
      have ends : EndsNumber (others.flatMap (',' :: fieldText ·) ++ '\x7d' :: rest) :=
        endsNumber_others _ _ (by decide) _
      rw [List.reverse_cons, List.append_assoc] at later
      rw [List.flatMap_cons, List.cons_append, List.cons_append, List.append_assoc]
      exact reads_fields_next (readsBack_field (back entry List.mem_cons_self) ends) later

theorem readsBack_object {entries : List (String × Json)}
    (back : ∀ entry ∈ entries, ReadsBack entry.2) : ReadsBack (.object entries) := by
  intro rest _ends
  cases entries with
  | nil => exact reads_object reads_fields_end
  | cons entry others =>
      have later := readsBack_fields
        (fun other member => back other (List.mem_cons_of_mem _ member))
        [(some entry.1, entry.2.document)] rest
      have ends : EndsNumber (others.flatMap (',' :: fieldText ·) ++ '\x7d' :: rest) :=
        endsNumber_others _ _ (by decide) _
      have next := readsBack_field (back entry List.mem_cons_self) ends
      have wholeText : (Json.object (entry :: others)).compact ++ rest =
          '\x7b' ::
            (fieldText entry ++ (others.flatMap (',' :: fieldText ·) ++ '\x7d' :: rest)) := by
        simp [compact, compactFields_cons]
      rw [wholeText]
      exact reads_object (reads_fields_first (by constructor <;> decide) next later)

mutual

theorem readsBack : ∀ json : Json, json.IsWhole → ReadsBack json
  | .null, _ => readsBack_null
  | .bool value, _ => readsBack_bool value
  | .number (.integer _), bounds => readsBack_integer bounds.1 bounds.2
  | .number (.double _), noDouble => noDouble.elim
  | .string text, _ => readsBack_string text
  | .array items, whole => readsBack_array (allReadBack items whole) (isWhole_of_mem whole)
  | .object fields, whole => readsBack_object (fieldsReadBack fields whole)

theorem allReadBack : ∀ items : List Json, AreWhole items → ∀ item ∈ items, ReadsBack item
  | [], _, _, member => (List.not_mem_nil member).elim
  | first :: rest, whole, item, member => by
      rcases List.mem_cons.mp member with same | later
      · rw [same]
        exact readsBack first whole.1
      · exact allReadBack rest whole.2 item later

theorem fieldsReadBack :
    ∀ fields : List (String × Json), FieldsWhole fields → ∀ entry ∈ fields, ReadsBack entry.2
  | [], _, _, member => (List.not_mem_nil member).elim
  | (_, value) :: rest, whole, entry, member => by
      rcases List.mem_cons.mp member with same | later
      · rw [same]
        exact readsBack value whole.1
      · exact fieldsReadBack rest whole.2 entry later

end

end Reader

/-- A value that is written is read as the document that it is. -/
theorem read_render {json : Json} (whole : json.IsWhole) :
    Document.read json.render = some json.document := by
  have read := Reader.readsBack json whole [] (fun _ nothing => by cases nothing)
  rw [List.append_nil] at read
  obtain ⟨shorter, found⟩ := read
  unfold Document.read render Reader.whole
  rw [String.toList_ofList, found]
  rfl

mutual

def depth : Json → Nat
  | .array items => depthOfItems items + 1
  | .object fields => depthOfFields fields + 1
  | .null => 0
  | .bool _ => 0
  | .number _ => 0
  | .string _ => 0

def depthOfItems : List Json → Nat
  | [] => 0
  | item :: rest => max item.depth (depthOfItems rest)

def depthOfFields : List (String × Json) → Nat
  | [] => 0
  | (_, value) :: rest => max value.depth (depthOfFields rest)

end

mutual

theorem value?_document : ∀ (json : Json) (limit : Nat), json.depth ≤ limit →
    json.document.value? limit = some json.canonical
  | .null, _, _ => rfl
  | .bool _, _, _ => rfl
  | .number _, _, _ => rfl
  | .string _, _, _ => rfl
  | .array items, limit, shallow => by
      cases limit with
      | zero => exact absurd shallow (Nat.not_succ_le_zero _)
      | succ limit =>
          have inner := values?_documents items limit (Nat.le_of_succ_le_succ shallow)
          rw [document, Document.value?, inner]
          rfl
  | .object fields, limit, shallow => by
      cases limit with
      | zero => exact absurd shallow (Nat.not_succ_le_zero _)
      | succ limit =>
          have inner := fieldValues?_documents fields limit (Nat.le_of_succ_le_succ shallow)
          rw [document, Document.value?, inner]
          rfl

theorem values?_documents : ∀ (items : List Json) (limit : Nat), depthOfItems items ≤ limit →
    Document.values? limit (documents items) = some (canonicalItems items)
  | [], _, _ => rfl
  | item :: rest, limit, shallow => by
      rw [depthOfItems] at shallow
      rw [documents, Document.values?, value?_document item limit (by omega),
        values?_documents rest limit (by omega)]
      rfl

theorem fieldValues?_documents : ∀ (fields : List (String × Json)) (limit : Nat),
    depthOfFields fields ≤ limit →
    Document.fieldValues? limit (documentFields fields) = some (canonicalFields fields)
  | [], _, _ => rfl
  | (key, value) :: rest, limit, shallow => by
      rw [depthOfFields] at shallow
      rw [documentFields, Document.fieldValues?, value?_document value limit (by omega),
        fieldValues?_documents rest limit (by omega)]
      rfl

end

def Visible (chars : List Char) : Prop := ∀ char ∈ chars, ¬char < ' '

instance (chars : List Char) : Decidable (Visible chars) :=
  decidable_of_iff (chars.all (fun char => !decide (char < ' ')) = true) (by simp [Visible])

theorem visible_append {first second : List Char} (left : Visible first) (right : Visible second) :
    Visible (first ++ second) := fun char member =>
  (List.mem_append.mp member).elim (left char) (right char)

theorem visible_cons {char : Char} {rest : List Char} (here : ¬char < ' ')
    (later : Visible rest) : Visible (char :: rest) :=
  List.forall_mem_cons.mpr ⟨here, later⟩

theorem visible_nil : Visible [] := fun _ member => (List.not_mem_nil member).elim

theorem visible_escape (char : Char) : Visible (escape char) := by
  have escaped := Reader.escaped_escape char
  generalize escape char = written, Reader.pieceOf char = piece at escaped
  cases escaped with
  | plain noQuote noEscape noControl => exact visible_cons noControl visible_nil
  | named written known other =>
      refine visible_cons (by decide) (visible_cons ?_ visible_nil)
      unfold Reader.escaped? at known
      split at known <;> first | decide | cases known
  | numbered control =>
      have small : char.toNat < 32 := control
      have digits : ∀ code < 32, Visible ['\\', 'u', '0', '0', lowHexDigit (code / 16),
          lowHexDigit (code % 16)] := by
        decide
      exact digits char.toNat small

theorem visible_quoted (text : String) : Visible (quoted text) := by
  refine visible_append (visible_cons (by decide) ?_) (visible_cons (by decide) visible_nil)
  intro char member
  obtain ⟨raw, _, written⟩ := List.mem_flatMap.mp member
  exact visible_escape raw char written

theorem visible_integer (value : Int) : Visible (toString value).toList := by
  have digits (number : Nat) : Visible (Nat.toDigits 10 number) := by
    intro char member small
    have digit := Nat.isDigit_of_mem_toDigits (by decide) (by decide) member
    have least : '0'.toNat ≤ char.toNat := by
      simp only [Char.isDigit, Bool.and_eq_true, decide_eq_true_eq] at digit
      exact digit.1
    have less : char.toNat < ' '.toNat := small
    have apart : ' '.toNat < '0'.toNat := by decide
    omega
  have written : toString value = value.repr := rfl
  rw [written, Int.repr_eq_if]
  split
  · rw [Nat.repr_eq_ofList_toDigits, String.toList_ofList]
    exact digits _
  · rw [String.toList_append, Nat.repr_eq_ofList_toDigits, String.toList_ofList,
      String.toList_ofList]
    exact visible_append (by decide) (digits _)

mutual

theorem visible_compact : ∀ json : Json, json.IsWhole → Visible json.compact
  | .null, _ => by decide
  | .bool true, _ => by decide
  | .bool false, _ => by decide
  | .number (.integer value), _ => visible_integer value
  | .number (.double _), noDouble => noDouble.elim
  | .string text, _ => visible_quoted text
  | .array items, whole =>
      visible_append (visible_cons (by decide) (visible_compactItems items whole))
        (visible_cons (by decide) visible_nil)
  | .object fields, whole =>
      visible_append (visible_cons (by decide) (visible_compactFields fields whole))
        (visible_cons (by decide) visible_nil)

theorem visible_compactItems : ∀ items : List Json, AreWhole items → Visible (compactItems items)
  | [], _ => visible_nil
  | [item], whole => visible_compact item whole.1
  | item :: next :: rest, whole =>
      visible_append (visible_compact item whole.1)
        (visible_cons (by decide) (visible_compactItems (next :: rest) whole.2))

theorem visible_compactFields :
    ∀ fields : List (String × Json), FieldsWhole fields → Visible (compactFields fields)
  | [], _ => visible_nil
  | [(key, value)], whole =>
      visible_append (visible_quoted key) (visible_cons (by decide) (visible_compact value whole.1))
  | (key, value) :: next :: rest, whole =>
      visible_append
        (visible_append (visible_quoted key)
          (visible_cons (by decide) (visible_compact value whole.1)))
        (visible_cons (by decide) (visible_compactFields (next :: rest) whole.2))

end

end Reanalysis.Json
