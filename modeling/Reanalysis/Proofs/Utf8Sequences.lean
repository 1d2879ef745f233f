/-
What is written as UTF-8 is read back, and only what was written so is read. The rules for
well-formed sequences stand between the two: writing a character obeys them, and one step
of the strict reading accepts exactly what obeys them.
-/

import Mathlib.Data.List.TakeWhile
import Reanalysis.Utf8

namespace Reanalysis.Utf8

theorem toList_loop (bytes : ByteArray) (index : Nat) (read : List UInt8) :
    ByteArray.toList.loop bytes index read = read.reverse ++ bytes.data.toList.drop index := by
  fun_induction ByteArray.toList.loop bytes index read with
  | case1 index read within ih =>
      have inData : index < bytes.data.toList.length := by simpa using within
      have found : bytes.get! index = bytes.data.toList[index] := by
        cases bytes
        exact getElem!_pos _ index within
      rw [ih, List.drop_eq_getElem_cons inData, found]
      simp
  | case2 index read beyond =>
      have short : bytes.data.toList.length ≤ index := by simpa using beyond
      rw [List.drop_of_length_le short, List.append_nil]

theorem encode_eq (text : String) : encode text = text.toList.flatMap String.utf8EncodeChar := by
  unfold encode ByteArray.toList
  rw [toList_loop, String.toUTF8, ← String.utf8Encode_toList, List.utf8Encode,
    List.toList_data_toByteArray]
  rfl

theorem toNat_byte {value : Nat} (small : value < 256) : (UInt8.ofNat value).toNat = value := by
  rw [UInt8.toNat_ofNat']
  exact Nat.mod_eq_of_lt small

theorem isContinuation_iff (byte : UInt8) :
    isContinuation byte ↔ 128 ≤ byte.toNat ∧ byte.toNat ≤ 191 := by
  simp [isContinuation, UInt8.le_iff_toNat_le]

/-- The bytes of a code point: the shortest sequence that has room for it. -/
inductive Sequence : Nat → List UInt8 → Prop
  | one {code : Nat} {first : UInt8} (small : code < 0x80) (firstIs : first.toNat = code) :
      Sequence code [first]
  | two {code : Nat} {first second : UInt8} (least : 0x80 ≤ code) (small : code < 0x800)
      (firstIs : first.toNat = code / 64 + 192) (secondIs : second.toNat = code % 64 + 128) :
      Sequence code [first, second]
  | three {code : Nat} {first second third : UInt8} (least : 0x800 ≤ code)
      (small : code < 0x10000) (noSurrogate : code < 0xD800 ∨ 0xDFFF < code)
      (firstIs : first.toNat = code / 4096 + 224)
      (secondIs : second.toNat = code / 64 % 64 + 128)
      (thirdIs : third.toNat = code % 64 + 128) :
      Sequence code [first, second, third]
  | four {code : Nat} {first second third fourth : UInt8} (least : 0x10000 ≤ code)
      (small : code < 0x110000) (firstIs : first.toNat = code / 262144 + 240)
      (secondIs : second.toNat = code / 4096 % 64 + 128)
      (thirdIs : third.toNat = code / 64 % 64 + 128)
      (fourthIs : fourth.toNat = code % 64 + 128) :
      Sequence code [first, second, third, fourth]

theorem sequence_encodeChar (char : Char) :
    Sequence char.val.toNat (String.utf8EncodeChar char) := by
  have valid : char.val.toNat < 0xD800 ∨ 0xDFFF < char.val.toNat ∧ char.val.toNat < 0x110000 :=
    char.valid
  unfold String.utf8EncodeChar
  generalize char.val.toNat = code at valid ⊢
  dsimp only
  split
  · exact .one (by omega) (toNat_byte (by omega))
  · split
    · exact .two (by omega) (by omega) ((toNat_byte (by omega)).trans (by omega))
        (toNat_byte (by omega))
    · split
      · exact .three (by omega) (by omega) (by omega)
          ((toNat_byte (by omega)).trans (by omega)) (toNat_byte (by omega))
          (toNat_byte (by omega))
      · exact .four (by omega) (by omega) ((toNat_byte (by omega)).trans (by omega))
          (toNat_byte (by omega)) (toNat_byte (by omega)) (toNat_byte (by omega))

theorem Sequence.valid {code : Nat} {bytes : List UInt8} (sequence : Sequence code bytes) :
    code.isValidChar := by
  unfold Nat.isValidChar
  cases sequence <;> omega

/-- A code point has one sequence. -/
theorem Sequence.unique {code : Nat} {bytes others : List UInt8} (left : Sequence code bytes)
    (right : Sequence code others) : bytes = others := by
  cases left <;> cases right <;> try omega
  all_goals simp only [List.cons.injEq, and_true, ← UInt8.toNat_inj]; omega

theorem Sequence.eq_encodeChar {code : Nat} {bytes : List UInt8}
    (sequence : Sequence code bytes) : bytes = String.utf8EncodeChar (Char.ofNat code) := by
  have written := sequence_encodeChar (Char.ofNat code)
  have back : (Char.ofNat code).val.toNat = code := by
    unfold Char.ofNat
    rw [dif_pos sequence.valid]
    rfl
  rw [back] at written
  exact sequence.unique written

/-! ### One step -/

theorem follow_char (lead count : Nat) {low high second : UInt8} {others : List UInt8}
    (within : low.toNat ≤ second.toNat ∧ second.toNat ≤ high.toNat)
    (size : others.length = count - 1)
    (continued : ∀ byte ∈ others, isContinuation byte) (rest : List UInt8) :
    follow lead count low high (second :: (others ++ rest)) =
      .char (joined lead (second :: others)) count := by
  have taken : (others ++ rest).take (count - 1) = others := by
    rw [← size, List.take_left]
  have kept : others.takeWhile isContinuation = others := by
    rw [List.takeWhile_eq_self_iff]
    exact continued
  unfold follow
  dsimp only
  rw [taken, kept, if_pos size, if_neg]
  simp [UInt8.le_iff_toNat_le, within]

theorem follow_eq_char {lead count more : Nat} {low high : UInt8} {rest : List UInt8} {char : Char}
    (followed : follow lead count low high rest = .char char more) :
    ∃ second others later, rest = second :: (others ++ later) ∧
      (low.toNat ≤ second.toNat ∧ second.toNat ≤ high.toNat) ∧ others.length = count - 1 ∧
      ∀ byte ∈ others, isContinuation byte := by
  unfold follow at followed
  split at followed
  · cases followed
  · rename_i second behind
    dsimp only at followed
    split at followed
    · cases followed
    · rename_i within
      split at followed
      · rename_i size
        simp only [Bool.or_eq_true, decide_eq_true_eq, UInt8.lt_iff_toNat_lt, not_or,
          Nat.not_lt] at within
        refine ⟨second, _, behind.drop (count - 1), ?_, within, size, ?_⟩
        · have all : (behind.take (count - 1)).takeWhile isContinuation =
              behind.take (count - 1) := by
            apply (List.takeWhile_prefix isContinuation).eq_of_length_le
            rw [size]
            exact List.length_take_le _ _
          rw [all, List.take_append_drop]
        · exact fun byte member => List.mem_takeWhile_imp member
      · split at followed <;> cases followed

theorem step_sequence {code : Nat} {first : UInt8} {tail : List UInt8}
    (sequence : Sequence code (first :: tail)) (rest : List UInt8) :
    step first (tail ++ rest) = .char (Char.ofNat code) tail.length := by
  cases sequence with
  | one small firstIs =>
      unfold step
      rw [if_pos, firstIs]
      · rfl
      · simp only [UInt8.lt_iff_toNat_lt, firstIs, UInt8.reduceToNat]
        exact small
  | @two _ second least small firstIs secondIs =>
      have within : (0x80 : UInt8).toNat ≤ second.toNat ∧ second.toNat ≤ (0xBF : UInt8).toNat := by
        simp only [UInt8.reduceToNat]
        omega
      have alone : ∀ byte ∈ ([] : List UInt8), isContinuation byte := by simp
      have followed := follow_char (code / 64) 1 within rfl alone rest
      have whole : code / 64 * 64 + code % 64 = code := by omega
      rw [List.nil_append] at followed
      unfold step
      simp only [UInt8.lt_iff_toNat_lt, firstIs, UInt8.reduceToNat]
      rw [if_neg (by omega), if_neg (by omega), if_pos (by omega), Nat.add_sub_cancel,
        List.singleton_append, followed]
      simp [joined, secondIs, whole]
  | @three _ second third least small noSurrogate firstIs secondIs thirdIs =>
      have whole : (code / 4096 * 64 + code / 64 % 64) * 64 + code % 64 = code := by omega
      have continued : ∀ byte ∈ [third], isContinuation byte := by
        simp only [List.mem_singleton, forall_eq, isContinuation_iff]
        omega
      have within : (if first = 0xE0 then (0xA0 : UInt8) else 0x80).toNat ≤ second.toNat ∧
          second.toNat ≤ (if first = 0xED then (0x9F : UInt8) else 0xBF).toNat := by
        simp only [← UInt8.toNat_inj, firstIs, UInt8.reduceToNat]
        split <;> split <;> simp only [UInt8.reduceToNat] <;> omega
      have followed := follow_char (code / 4096) 2 within rfl continued rest
      unfold step
      simp only [UInt8.lt_iff_toNat_lt, firstIs, UInt8.reduceToNat]
      rw [if_neg (by omega), if_neg (by omega), if_neg (by omega), if_pos (by omega),
        Nat.add_sub_cancel]
      refine followed.trans ?_
      simp [joined, secondIs, thirdIs, whole]
  | @four _ second third fourth least small firstIs secondIs thirdIs fourthIs =>
      have whole : ((code / 262144 * 64 + code / 4096 % 64) * 64 + code / 64 % 64) * 64 +
          code % 64 = code := by omega
      have continued : ∀ byte ∈ [third, fourth], isContinuation byte := by
        simp only [List.mem_cons, List.not_mem_nil, or_false, forall_eq_or_imp, forall_eq,
          isContinuation_iff]
        omega
      have within : (if first = 0xF0 then (0x90 : UInt8) else 0x80).toNat ≤ second.toNat ∧
          second.toNat ≤ (if first = 0xF4 then (0x8F : UInt8) else 0xBF).toNat := by
        simp only [← UInt8.toNat_inj, firstIs, UInt8.reduceToNat]
        split <;> split <;> simp only [UInt8.reduceToNat] <;> omega
      have followed := follow_char (code / 262144) 3 within rfl continued rest
      unfold step
      simp only [UInt8.lt_iff_toNat_lt, firstIs, UInt8.reduceToNat]
      rw [if_neg (by omega), if_neg (by omega), if_neg (by omega), if_neg (by omega),
        if_pos (by omega), Nat.add_sub_cancel]
      refine followed.trans ?_
      simp [joined, secondIs, thirdIs, fourthIs, whole]

theorem sequence_of_step {first : UInt8} {rest : List UInt8} {char : Char} {more : Nat}
    (stepped : step first rest = .char char more) :
    ∃ code tail later, rest = tail ++ later ∧ Sequence code (first :: tail) := by
  have small := first.toNat_lt
  unfold step at stepped
  simp only [UInt8.lt_iff_toNat_lt, UInt8.reduceToNat, ← UInt8.toNat_inj] at stepped
  split at stepped
  · rename_i ascii
    exact ⟨first.toNat, [], rest, rfl, .one ascii rfl⟩
  · split at stepped
    · cases stepped
    · split at stepped
      · obtain ⟨second, others, later, rfl, within, size, continued⟩ := follow_eq_char stepped
        obtain rfl := List.eq_nil_of_length_eq_zero size
        simp only [UInt8.reduceToNat] at within
        exact ⟨(first.toNat - 192) * 64 + (second.toNat - 128), [second], later, rfl,
          .two (by omega) (by omega) (by omega) (by omega)⟩
      · split at stepped
        · obtain ⟨second, others, later, rfl, within, size, continued⟩ := follow_eq_char stepped
          obtain ⟨third, rfl⟩ := List.length_eq_one_iff.mp size
          simp only [List.mem_singleton, forall_eq, isContinuation_iff] at continued
          have low : (first.toNat = 224 → 160 ≤ second.toNat) ∧ 128 ≤ second.toNat := by
            split at within <;> simp only [UInt8.reduceToNat] at within <;> omega
          have high : (first.toNat = 237 → second.toNat ≤ 159) ∧ second.toNat ≤ 191 := by
            have upper := within.2
            split at upper <;> simp only [UInt8.reduceToNat] at upper <;> omega
          exact ⟨(first.toNat - 224) * 4096 + (second.toNat - 128) * 64 + (third.toNat - 128),
            [second, third], later, rfl,
            .three (by omega) (by omega) (by omega) (by omega) (by omega) (by omega)⟩
        · split at stepped
          · obtain ⟨second, others, later, rfl, within, size, continued⟩ :=
              follow_eq_char stepped
            obtain ⟨third, fourth, rfl⟩ : ∃ third fourth, others = [third, fourth] := by
              match others, size with
              | [third, fourth], _ => exact ⟨third, fourth, rfl⟩
            simp only [List.mem_cons, List.not_mem_nil, or_false, forall_eq_or_imp, forall_eq,
              isContinuation_iff] at continued
            have low : (first.toNat = 240 → 144 ≤ second.toNat) ∧ 128 ≤ second.toNat := by
              split at within <;> simp only [UInt8.reduceToNat] at within <;> omega
            have high : (first.toNat = 244 → second.toNat ≤ 143) ∧ second.toNat ≤ 191 := by
              have upper := within.2
              split at upper <;> simp only [UInt8.reduceToNat] at upper <;> omega
            exact ⟨(first.toNat - 240) * 262144 + (second.toNat - 128) * 4096 +
                (third.toNat - 128) * 64 + (fourth.toNat - 128),
              [second, third, fourth], later, rfl,
              .four (by omega) (by omega) (by omega) (by omega) (by omega) (by omega)⟩
          · cases stepped

theorem decodeFrom_encode (chars : List Char) (index : Nat) (read : List Char) :
    decodeFrom index read (chars.flatMap String.utf8EncodeChar) =
      .ok (read.reverse ++ chars) := by
  induction chars generalizing index read with
  | nil => rw [List.flatMap_nil, decodeFrom, List.append_nil]
  | cons char later ih =>
      have sequence := sequence_encodeChar char
      rw [List.flatMap_cons]
      generalize String.utf8EncodeChar char = bytes at sequence ⊢
      cases bytes with
      | nil => cases sequence
      | cons first tail =>
          rw [List.cons_append, decodeFrom, step_sequence sequence]
          dsimp only
          rw [List.drop_left, ih, List.reverse_cons, List.append_assoc, List.singleton_append]
          exact congrArg (fun read => Except.ok (_ ++ read :: _)) (Char.ofNat_toNat char)

theorem decode_encode (text : String) : decode (encode text) = .ok text := by
  unfold decode
  rw [encode_eq, decodeFrom_encode, List.reverse_nil, List.nil_append]
  exact congrArg Except.ok String.ofList_toList

theorem encode_of_decodeFrom {index : Nat} {read chars : List Char} {bytes : List UInt8}
    (decoded : decodeFrom index read bytes = .ok chars) :
    ∃ later, chars = read.reverse ++ later ∧ bytes = later.flatMap String.utf8EncodeChar := by
  fun_induction decodeFrom index read bytes with
  | case1 index read =>
      cases decoded
      exact ⟨[], (List.append_nil _).symm, rfl⟩
  | case2 index read first rest char more stepped ih =>
      obtain ⟨code, tail, later, rfl, sequence⟩ := sequence_of_step stepped
      obtain ⟨rfl, rfl⟩ := Step.char.inj (stepped.symm.trans (step_sequence sequence later))
      obtain ⟨chars, rfl, behind⟩ := ih decoded
      refine ⟨Char.ofNat code :: chars, ?_, ?_⟩
      · rw [List.reverse_cons, List.append_assoc, List.singleton_append]
      · rw [List.drop_left] at behind
        rw [List.flatMap_cons, ← sequence.eq_encodeChar, ← behind, List.cons_append]
  | case3 index read first rest more stepped => cases decoded
  | case4 index read first rest stepped => cases decoded

/-- The strict reading reads what some text is written as, and nothing else. -/
theorem decode_eq_ok {bytes : List UInt8} {text : String} :
    decode bytes = .ok text ↔ bytes = encode text := by
  constructor
  · intro decoded
    unfold decode at decoded
    cases found : decodeFrom 0 [] bytes with
    | error fault =>
        rw [found] at decoded
        cases decoded
    | ok chars =>
        rw [found] at decoded
        cases decoded
        obtain ⟨later, rfl, rfl⟩ := encode_of_decodeFrom found
        rw [encode_eq, String.toList_ofList]
  · rintro rfl
    exact decode_encode text

theorem encode_append (first second : String) :
    encode (first ++ second) = encode first ++ encode second := by
  rw [encode_eq, encode_eq, encode_eq, String.toList_append, List.flatMap_append]

theorem mem_encodeChar_of_ascii {char : Char} {byte : UInt8} (ascii : byte.toNat < 0x80)
    (member : byte ∈ String.utf8EncodeChar char) : char.val.toNat = byte.toNat := by
  have sequence := sequence_encodeChar char
  generalize String.utf8EncodeChar char = bytes, char.val.toNat = code at sequence member ⊢
  cases sequence <;>
    simp only [List.mem_cons, List.not_mem_nil, or_false, ← UInt8.toNat_inj] at member <;> omega

theorem lineFeed_not_mem_encode {text : String} (absent : '\n' ∉ text.toList) :
    0x0A ∉ encode text := by
  rw [encode_eq]
  intro member
  obtain ⟨char, inText, inChar⟩ := List.mem_flatMap.mp member
  have code : char.val.toNat = '\n'.val.toNat := mem_encodeChar_of_ascii (by decide) inChar
  have same : char = '\n' := Char.ext (UInt32.toNat_inj.mp code)
  exact absent (same ▸ inText)

end Reanalysis.Utf8
