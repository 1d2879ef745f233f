/-
Messages that are written one on each line, with blank lines and lines of other origin
between them. A stream amounts to its messages in order, and to one refusal for each line
that is neither a message nor blank. Such a line that is not even text is told apart, and
it ends a channel.
-/

import Reanalysis.Proofs.Utf8Sequences
import Reanalysis.Proofs.WireFormats
import Reanalysis.Wire.Lines

namespace Reanalysis

open Json

theorem Travels.document {α : Type} {decode : Document → Option α} {json : Json} {value : α}
    (travels : Travels decode json value) : decode json.document = some value :=
  travels.read keeps_id

theorem Json.fields_document (known : List String) (fields : List (String × Json))
    (single : (keys fields).Nodup) :
    ∃ found, Fields.of? known false (Json.object fields).document = some found ∧
      ∀ name ∈ known, found.find? name = (fields.lookup name).map Json.document :=
  keeps_id.fields known single

def Json.unlessNull : Json → Option Json
  | .null => none
  | value => some value

theorem nullable_anyValue {value : Json} (shallow : value.depth ≤ Document.nestingLimit) :
    value.document.nullable? Message.anyValue? = some value.canonical.unlessNull := by
  have found : Message.anyValue? value.document = some value.canonical :=
    value?_document value _ shallow
  cases value with
  | null => rfl
  | bool value => rfl
  | number value => rfl
  | string text => rfl
  | array items =>
      change (Message.anyValue? (Json.array items).document).map some = _
      rw [found]
      rfl
  | object fields =>
      change (Message.anyValue? (Json.object fields).document).map some = _
      rw [found]
      rfl

theorem Json.depth_lookup {name : String} {value : Json} {fields : List (String × Json)}
    (found : fields.lookup name = some value) : value.depth ≤ depthOfFields fields := by
  induction fields with
  | nil => cases found
  | cons field rest ih =>
      rw [lookup_cons] at found
      rw [depthOfFields]
      split at found
      · cases found
        exact Nat.le_max_left _ _
      · exact Nat.le_trans (ih found) (Nat.le_max_right _ _)

theorem nullable_fault (fault : Fault) :
    fault.toJson.document.nullable? Fault.ofDocument? = some (some fault) := by
  change (Fault.ofDocument? fault.toJson.document).map some = _
  rw [fault.travels.document]
  rfl

namespace Message

/-- What arrives of a message: objects with their fields in order, and a null for a result is
no result. -/
def arrived : Message → Message
  | .request call => .request { call with payload := call.payload.canonical }
  | .response answer =>
      .response
        { answer with result := answer.result.bind fun value => value.canonical.unlessNull }
  | .notification notice => .notification { notice with payload := notice.payload.canonical }

/-- All numbers are whole ones of 64 bits, and the text nests as deep as is read. -/
structure Sendable (message : Message) : Prop where
  whole : message.toJson.IsWhole
  shallow : message.toJson.depth ≤ Document.nestingLimit

theorem ofDocument?_eq {message : Message} (sendable : message.Sendable) :
    ofDocument? message.toJson.document =
      match request? message.toJson.document with
      | some found => some (.request found)
      | none =>
          match response? message.toJson.document with
          | some found => some (.response found)
          | none => (notification? message.toJson.document).map .notification := by
  have value : anyValue? message.toJson.document = some message.toJson.canonical :=
    value?_document _ _ sendable.shallow
  unfold ofDocument?
  rw [value]
  rfl

theorem natural?_number {number : Nat} (whole : (Json.nat number).IsWhole) :
    Document.natural? 64 (Json.nat number).document = some number :=
  (travels_nat (Nat.le_refl 64) (Int.ofNat_lt.mp whole.2)).document

theorem anyValue?_payload {payload : Json} (shallow : payload.depth ≤ 126) :
    anyValue? payload.document = some payload.canonical :=
  value?_document payload _ (Nat.le_succ_of_le shallow)

theorem ofDocument?_request {call : Request} (sendable : (Message.request call).Sendable) :
    ofDocument? (Message.request call).toJson.document =
      some (Message.request call).arrived := by
  have id := natural?_number sendable.whole.1
  have topic := (travels_string call.topic).document
  have payload : anyValue? call.payload.document = some call.payload.canonical := by
    have shallow := sendable.shallow
    simp only [toJson, depth, depthOfFields, Document.nestingLimit] at shallow
    exact anyValue?_payload (by omega)
  obtain ⟨fields, read, look⟩ := fields_document ["id", "topic", "payload"]
    [("id", .nat call.id), ("topic", .string call.topic), ("payload", call.payload)]
    (by decide : ["id", "topic", "payload"].Nodup)
  rw [ofDocument?_eq sendable, request?]
  simp [toJson, read, Fields.required, Fields.orElse, look, List.lookup_cons, id, topic, payload,
    arrived]

theorem ofDocument?_notification {notice : Notification}
    (sendable : (Message.notification notice).Sendable) :
    ofDocument? (Message.notification notice).toJson.document =
      some (Message.notification notice).arrived := by
  have topic := (travels_string notice.topic).document
  have payload : anyValue? notice.payload.document = some notice.payload.canonical := by
    have shallow := sendable.shallow
    simp only [toJson, depth, depthOfFields, Document.nestingLimit] at shallow
    exact anyValue?_payload (by omega)
  have single : ["topic", "payload"].Nodup := by decide
  have noNumber (known : List String) (wanted : "id" ∈ known) :
      ∃ fields, Fields.of? known false (Message.notification notice).toJson.document =
        some fields ∧ fields.find? "id" = none := by
    obtain ⟨fields, read, look⟩ := fields_document known
      [("topic", .string notice.topic), ("payload", notice.payload)] single
    exact ⟨fields, read, look "id" wanted⟩
  obtain ⟨calls, readCall, noCall⟩ := noNumber ["id", "topic", "payload"] (by decide)
  obtain ⟨answers, readAnswer, noAnswer⟩ := noNumber ["id", "result", "error"] (by decide)
  obtain ⟨fields, read, look⟩ := fields_document ["topic", "payload"]
    [("topic", .string notice.topic), ("payload", notice.payload)] single
  rw [ofDocument?_eq sendable, request?, readCall, response?, readAnswer, notification?]
  simp [toJson, read, Fields.required, Fields.orElse, look, List.lookup_cons, topic, payload,
    arrived, noCall, noAnswer]

theorem response_fields (answer : Response) :
    ∃ fields, (Message.response answer).toJson = .object fields ∧ (keys fields).Nodup ∧
      fields.lookup "id" = some (.nat answer.id) ∧ fields.lookup "topic" = none ∧
      fields.lookup "result" = answer.result ∧
      fields.lookup "error" = answer.fault.map Fault.toJson := by
  obtain ⟨id, result, fault⟩ := answer
  refine ⟨_, rfl, ?_⟩
  cases result <;> cases fault <;> simp [whenSome, List.lookup_cons]

theorem orElse_nullable {α : Type} {fields : Fields} {name : String} {written : Option Json}
    {decode : Document → Option α} {found : Option α}
    (held : fields.find? name = written.map Json.document)
    (absent : written = none → found = none)
    (present : ∀ value ∈ written, value.document.nullable? decode = some found) :
    fields.orElse name none (Document.nullable? decode) = some found := by
  unfold Fields.orElse
  rw [held]
  cases written with
  | none => rw [absent rfl]; rfl
  | some value => exact present value rfl

theorem ofDocument?_response {answer : Response} (sendable : (Message.response answer).Sendable) :
    ofDocument? (Message.response answer).toJson.document =
      some (Message.response answer).arrived := by
  have id := natural?_number sendable.whole.1
  obtain ⟨written, same, single, number, noTopic, found, refused⟩ := response_fields answer
  have shallow := sendable.shallow
  rw [same, depth] at shallow
  obtain ⟨calls, readCall, lookCall⟩ := fields_document ["id", "topic", "payload"] written single
  obtain ⟨fields, read, look⟩ := fields_document ["id", "result", "error"] written single
  have noCall : calls.find? "topic" = none := by
    rw [lookCall "topic" (by decide), noTopic]
    rfl
  have result : fields.orElse "result" none (Document.nullable? anyValue?) =
      some (answer.result.bind fun value => value.canonical.unlessNull) := by
    refine orElse_nullable ((look "result" (by decide)).trans (by rw [found])) ?_ ?_
    · intro nothing
      rw [nothing]
      rfl
    · intro value held
      have within := depth_lookup (found.trans held)
      rw [held]
      exact nullable_anyValue (by unfold Document.nestingLimit at shallow ⊢; omega)
  have fault : fields.orElse "error" none (Document.nullable? Fault.ofDocument?) =
      some answer.fault := by
    refine orElse_nullable ((look "error" (by decide)).trans (by rw [refused])) ?_ ?_
    · exact Option.map_eq_none_iff.mp
    · intro value held
      obtain ⟨fault, present, rfl⟩ := Option.map_eq_some_iff.mp held
      rw [present]
      exact nullable_fault fault
  rw [ofDocument?_eq sendable, request?, response?, same, readCall, read]
  simp [Fields.required, noCall, look "id", number, id, result, fault, arrived]

theorem ofDocument?_document {message : Message} (sendable : message.Sendable) :
    ofDocument? message.toJson.document = some message.arrived := by
  cases message with
  | request call => exact ofDocument?_request sendable
  | response answer => exact ofDocument?_response sendable
  | notification notice => exact ofDocument?_notification sendable

/-- A message that is written is read as what arrives of it. -/
theorem read_render {message : Message} (sendable : message.Sendable) :
    Message.read message.toJson.render = some message.arrived := by
  unfold Message.read
  rw [Json.read_render sendable.whole]
  exact ofDocument?_document sendable

def IsKept : Message → Prop
  | .request call => call.payload.IsKept
  | .response answer => ∀ value ∈ answer.result, value.IsKept
  | .notification notice => notice.payload.IsKept

theorem arrived_of_isKept {message : Message} (kept : message.IsKept)
    (something : ∀ answer, message = .response answer → answer.result ≠ some .null) :
    message.arrived = message := by
  cases message with
  | request call => rw [arrived, canonical_of_isKept _ kept]
  | notification notice => rw [arrived, canonical_of_isKept _ kept]
  | response answer =>
      obtain ⟨id, result, fault⟩ := answer
      cases result with
      | none => rfl
      | some value =>
          have same := canonical_of_isKept value (kept value rfl)
          cases value with
          | null => exact absurd rfl (something _ rfl)
          | _ => simp only [arrived, Option.bind_some, same, unlessNull]

/-! ### One line -/

theorem visible_render {message : Message} (sendable : message.Sendable) :
    '\n' ∉ message.toJson.render.toList := by
  intro member
  rw [render, String.toList_ofList] at member
  exact visible_compact _ sendable.whole '\n' member (by decide)

theorem compact_braces (message : Message) :
    ∃ inner, message.toJson.compact = '\x7b' :: inner ++ ['\x7d'] := by
  cases message with
  | request call => exact ⟨_, rfl⟩
  | response answer => exact ⟨_, rfl⟩
  | notification notice => exact ⟨_, rfl⟩

end Message

namespace Text

theorem trim_of_ends {first last : Char} {inner : List Char} (visibleFirst : ¬isBlank first)
    (visibleLast : ¬isBlank last) : trim (first :: inner ++ [last]) = first :: inner ++ [last] := by
  unfold trim
  rw [List.cons_append, List.dropWhile_cons_of_neg visibleFirst, ← List.cons_append,
    List.reverse_concat, List.dropWhile_cons_of_neg visibleLast, List.reverse_cons,
    List.reverse_reverse]

theorem trim_eq_nil {chars : List Char} : trim chars = [] ↔ ∀ char ∈ chars, isBlank char := by
  unfold trim
  rw [List.reverse_eq_nil_iff]
  constructor
  · intro nothing
    refine List.dropWhile_eq_nil_iff.mp ?_
    cases kept : chars.dropWhile isBlank with
    | nil => rfl
    | cons first rest =>
        have visible : ¬isBlank first := by
          have head := List.head?_dropWhile_not isBlank chars
          rw [kept] at head
          exact ne_true_of_eq_false head
        rw [kept] at nothing
        have blank := List.dropWhile_eq_nil_iff.mp nothing first (by simp)
        exact absurd blank visible
  · intro blank
    rw [List.dropWhile_eq_nil_iff.mpr blank]
    rfl

theorem trim_append_blank (chars : List Char) {last : Char} (blank : isBlank last) :
    trim (chars ++ [last]) = trim chars := by
  unfold trim
  by_cases allBlank : ∀ char ∈ chars, isBlank char
  · have all : ∀ char ∈ chars ++ [last], isBlank char := by
      intro char member
      rcases List.mem_append.mp member with inside | isLast
      · exact allBlank char inside
      · rw [List.mem_singleton.mp isLast]
        exact blank
    rw [List.dropWhile_eq_nil_iff.mpr all, List.dropWhile_eq_nil_iff.mpr allBlank]
  · have some : chars.dropWhile isBlank ≠ [] := fun none =>
      allBlank (List.dropWhile_eq_nil_iff.mp none)
    rw [List.dropWhile_append, if_neg (by rwa [List.isEmpty_iff]), List.reverse_concat,
      List.dropWhile_cons_of_pos blank]

end Text

namespace Wire

def cutByte (state : List UInt8 × List (List UInt8)) (byte : UInt8) :
    List UInt8 × List (List UInt8) :=
  if byte = 0x0A then ([], (byte :: state.1).reverse :: state.2) else (byte :: state.1, state.2)

theorem cutByte_line {bytes : List UInt8} (unbroken : 0x0A ∉ bytes) (begun : List UInt8)
    (cut : List (List UInt8)) :
    bytes.foldl cutByte (begun, cut) = (bytes.reverse ++ begun, cut) := by
  induction bytes generalizing begun with
  | nil => rfl
  | cons byte rest ih =>
      have other := not_or.mp (mt List.mem_cons.mpr unbroken)
      rw [List.foldl_cons, cutByte, if_neg (Ne.symm other.1), ih other.2, List.reverse_cons,
        List.append_assoc]
      rfl

theorem cutByte_behind (bytes begun : List UInt8) (cut earlier : List (List UInt8)) :
    bytes.foldl cutByte (begun, cut ++ earlier) =
      ((bytes.foldl cutByte (begun, cut)).1, (bytes.foldl cutByte (begun, cut)).2 ++ earlier) := by
  induction bytes generalizing begun cut with
  | nil => rfl
  | cons byte rest ih =>
      rw [List.foldl_cons, List.foldl_cons]
      by_cases ends : byte = 0x0A
      · simp only [cutByte, if_pos ends]
        exact ih [] (_ :: cut)
      · simp only [cutByte, if_neg ends]
        exact ih (byte :: begun) cut

theorem cutLines_eq (bytes : List UInt8) :
    cutLines bytes =
      (if (bytes.foldl cutByte ([], [])).1.isEmpty then (bytes.foldl cutByte ([], [])).2
      else (bytes.foldl cutByte ([], [])).1.reverse :: (bytes.foldl cutByte ([], [])).2).reverse :=
  rfl

theorem cutLines_line {bytes : List UInt8} (unbroken : 0x0A ∉ bytes) (rest : List UInt8) :
    cutLines (bytes ++ 0x0A :: rest) = (bytes ++ [0x0A]) :: cutLines rest := by
  have first : (bytes ++ 0x0A :: rest).foldl cutByte ([], []) =
      rest.foldl cutByte ([], [] ++ [bytes ++ [0x0A]]) := by
    rw [List.foldl_append, cutByte_line unbroken, List.append_nil, List.foldl_cons, cutByte,
      if_pos rfl, List.reverse_cons, List.reverse_reverse]
    rfl
  rw [cutLines_eq, cutLines_eq, first, cutByte_behind]
  dsimp only
  split <;> simp

theorem encode_lineFeed : Utf8.encode "\n" = [0x0A] := by
  rw [Utf8.encode_eq]
  decide

/-- One line of a stream: a text that holds a message, perhaps with blanks around it, a text of
blanks, or any other bytes. -/
inductive Entry where
  | message (text : String) (held : Message)
  | blank (text : String)
  | other (bytes : List UInt8)

namespace Entry

def content : Entry → List UInt8
  | .message text _ => Utf8.encode text
  | .blank text => Utf8.encode text
  | .other bytes => bytes

def bytes (entry : Entry) : List UInt8 := entry.content ++ [0x0A]

def IsSound : Entry → Prop
  | .message text held =>
      '\n' ∉ text.toList ∧ Message.read (String.ofList (Text.trim text.toList)) = some held
  | .blank text => '\n' ∉ text.toList ∧ ∀ char ∈ text.toList, Text.isBlank char
  | .other bytes =>
      0x0A ∉ bytes ∧ ∀ text, Utf8.encode text = bytes →
        ¬(∀ char ∈ text.toList, Text.isBlank char) ∧
          Message.read (String.ofList (Text.trim text.toList)) = none

def line? : Entry → Option Line
  | .message _ held => some (.message held)
  | .blank _ => none
  | .other bytes =>
      match Utf8.decode (bytes ++ [0x0A]) with
      | .ok _ => some .malformed
      | .error fault => some (.undecodable fault)

theorem unbroken {entry : Entry} (sound : entry.IsSound) : 0x0A ∉ entry.content := by
  cases entry with
  | message text held => exact Utf8.lineFeed_not_mem_encode sound.1
  | blank text => exact Utf8.lineFeed_not_mem_encode sound.1
  | other bytes => exact sound.1

def ofMessage (message : Message) : Entry := .message message.toJson.render message.arrived

theorem bytes_ofMessage (message : Message) :
    (ofMessage message).bytes = Utf8.encode message.line := by
  rw [Message.line, Utf8.encode_append, encode_lineFeed]
  rfl

theorem isSound_ofMessage {message : Message} (sendable : message.Sendable) :
    (ofMessage message).IsSound := by
  refine ⟨Message.visible_render sendable, ?_⟩
  obtain ⟨inner, braces⟩ := message.compact_braces
  rw [← Message.read_render sendable, Json.render, String.toList_ofList, braces,
    Text.trim_of_ends (by decide) (by decide)]

end Entry

theorem readLine_text {text : String} :
    readLine (Utf8.encode text ++ [0x0A]) =
      if (Text.trim text.toList).isEmpty then none
      else
        match Message.read (String.ofList (Text.trim text.toList)) with
        | none => some .malformed
        | some message => some (.message message) := by
  have written : Utf8.encode text ++ [0x0A] = Utf8.encode (text ++ "\n") := by
    rw [Utf8.encode_append, encode_lineFeed]
  have trimmed : Text.trim (text ++ "\n").toList = Text.trim text.toList := by
    rw [String.toList_append]
    exact Text.trim_append_blank text.toList (by decide)
  unfold readLine
  rw [written, Utf8.decode_encode]
  dsimp only
  generalize Text.trim (text ++ "\n").toList = chars at trimmed ⊢
  subst trimmed
  rfl

theorem text_before_lineFeed {bytes : List UInt8} {text : String}
    (written : bytes ++ [0x0A] = Utf8.encode text) : ∃ before, bytes = Utf8.encode before := by
  rw [Utf8.encode_eq] at written
  rcases List.eq_nil_or_concat text.toList with nothing | ⟨chars, last, cut⟩
  · rw [nothing] at written
    exact absurd written (List.append_ne_nil_of_right_ne_nil bytes (List.cons_ne_nil _ _))
  · rw [cut, List.concat_eq_append, List.flatMap_append, List.flatMap_singleton] at written
    have member : 0x0A ∈ String.utf8EncodeChar last := by
      rcases List.eq_nil_or_concat (String.utf8EncodeChar last) with none | ⟨front, byte, cut⟩
      · exact absurd none String.utf8EncodeChar_ne_nil
      · rw [cut, List.concat_eq_append, ← List.append_assoc] at written
        rw [cut, List.concat_eq_append, ← (List.append_inj' written rfl).2]
        exact List.mem_append_right _ List.mem_cons_self
    have code : last.val.toNat = '\n'.val.toNat := Utf8.mem_encodeChar_of_ascii (by decide) member
    have same : last = '\n' := Char.ext (UInt32.toNat_inj.mp code)
    have alone : String.utf8EncodeChar '\n' = [0x0A] := by decide
    rw [same, alone] at written
    refine ⟨String.ofList chars, ?_⟩
    rw [Utf8.encode_eq, String.toList_ofList]
    exact (List.append_inj' written rfl).1

theorem read_nothing : Message.read (String.ofList []) = none := by
  unfold Message.read Document.read Reader.whole
  rw [String.toList_ofList, Reader.document]
  rfl

theorem readLine_entry {entry : Entry} (sound : entry.IsSound) :
    readLine entry.bytes = entry.line? := by
  cases entry with
  | message text held =>
      have notBlank : ¬(Text.trim text.toList).isEmpty := by
        intro blank
        have read := sound.2
        rw [List.isEmpty_iff.mp blank, read_nothing] at read
        cases read
      change readLine (Utf8.encode text ++ [0x0A]) = _
      rw [readLine_text, if_neg notBlank, sound.2]
      rfl
  | blank text =>
      change readLine (Utf8.encode text ++ [0x0A]) = _
      rw [readLine_text, Text.trim_eq_nil.mpr sound.2]
      rfl
  | other bytes =>
      change readLine (bytes ++ [0x0A]) = _
      cases decoded : Utf8.decode (bytes ++ [0x0A]) with
      | error fault =>
          simp only [readLine, Entry.line?, decoded]
      | ok text =>
          obtain ⟨before, written⟩ := text_before_lineFeed (Utf8.decode_eq_ok.mp decoded)
          obtain ⟨notBlank, noMessage⟩ := sound.2 before written.symm
          simp only [Entry.line?, decoded]
          rw [written, readLine_text, noMessage,
            if_neg (fun blank => notBlank (Text.trim_eq_nil.mp (List.isEmpty_iff.mp blank)))]

theorem cutLines_entries {entries : List Entry} (sound : ∀ entry ∈ entries, entry.IsSound) :
    cutLines (entries.flatMap Entry.bytes) = entries.map Entry.bytes := by
  induction entries with
  | nil => rfl
  | cons entry rest ih =>
      rw [List.flatMap_cons, Entry.bytes, List.append_assoc, List.singleton_append,
        cutLines_line (Entry.unbroken (sound entry List.mem_cons_self)),
        ih (fun other member => sound other (List.mem_cons_of_mem _ member))]
      rfl

theorem readAll_entries {entries : List Entry} (sound : ∀ entry ∈ entries, entry.IsSound) :
    readAll (entries.flatMap Entry.bytes) = entries.filterMap Entry.line? := by
  unfold readAll
  rw [cutLines_entries sound]
  induction entries with
  | nil => rfl
  | cons entry rest ih =>
      rw [List.map_cons, List.filterMap_cons, List.filterMap_cons,
        readLine_entry (sound entry List.mem_cons_self),
        ih (fun other member => sound other (List.mem_cons_of_mem _ member))]

/-! ### All that is sent -/

def IsBlankLine (text : String) : Prop :=
  '\n' ∉ text.toList ∧ ∀ char ∈ text.toList, Text.isBlank char

instance (text : String) : Decidable (IsBlankLine text) :=
  decidable_of_iff ('\n' ∉ text.toList ∧ text.toList.all Text.isBlank = true)
    (by rw [List.all_eq_true]; exact Iff.rfl)

def blankLines (texts : List String) : List UInt8 :=
  texts.flatMap fun text => Utf8.encode (text ++ "\n")

/-- Messages as they are written, each behind blank lines of its own. -/
def written (messages : List (List String × Message)) : List UInt8 :=
  messages.flatMap fun entry => blankLines entry.1 ++ Utf8.encode entry.2.line

theorem blankLines_eq (texts : List String) :
    blankLines texts = (texts.map Entry.blank).flatMap Entry.bytes := by
  rw [List.flatMap_map]
  unfold blankLines
  congr 1
  funext text
  rw [Utf8.encode_append, encode_lineFeed]
  rfl

theorem written_eq (messages : List (List String × Message)) :
    written messages =
      (messages.flatMap fun entry => entry.1.map Entry.blank ++ [.ofMessage entry.2]).flatMap
        Entry.bytes := by
  induction messages with
  | nil => rfl
  | cons entry rest ih =>
      rw [List.flatMap_cons, List.flatMap_append, List.flatMap_append, List.flatMap_singleton,
        Entry.bytes_ofMessage, ← blankLines_eq, ← ih]
      rfl

theorem readAll_written (messages : List (List String × Message)) (after : List String)
    (sendable : ∀ entry ∈ messages,
      entry.2.Sendable ∧ ∀ text ∈ entry.1, IsBlankLine text)
    (blank : ∀ text ∈ after, IsBlankLine text) :
    readAll (written messages ++ blankLines after) =
      messages.map fun entry => .message entry.2.arrived := by
  have noLine (texts : List String) : (texts.map Entry.blank).filterMap Entry.line? = [] := by
    rw [List.filterMap_map]
    exact List.filterMap_eq_nil_iff.mpr fun _ _ => rfl
  rw [written_eq, blankLines_eq, ← List.flatMap_append, readAll_entries, List.filterMap_append,
    noLine, List.append_nil]
  · clear sendable
    induction messages with
    | nil => rfl
    | cons entry rest ih =>
        rw [List.flatMap_cons, List.filterMap_append, List.filterMap_append, noLine, ih]
        rfl
  · intro line member
    rcases List.mem_append.mp member with inside | behind
    · obtain ⟨entry, held, place⟩ := List.mem_flatMap.mp inside
      rcases List.mem_append.mp place with before | itself
      · obtain ⟨text, inBefore, rfl⟩ := List.mem_map.mp before
        exact (sendable entry held).2 text inBefore
      · rw [List.mem_singleton.mp itself]
        exact Entry.isSound_ofMessage (sendable entry held).1
    · obtain ⟨text, inAfter, rfl⟩ := List.mem_map.mp behind
      exact blank text inAfter

end Wire

def Message.SameKind : Message → Message → Prop
  | .request _, .request _ => True
  | .response _, .response _ => True
  | .notification _, .notification _ => True
  | _, _ => False

/-- Everything that is sent is read as it was, messages one by one from a stream with blank
lines in it. Only a null for a result comes back as no result, which means the same. -/
theorem wire_formats_round_trip :
    (∀ change : Change,
      (Document.read change.toJson.render).bind Change.ofDocument? = some change) ∧
    (∀ issue : Issue, (Document.read issue.toJson.render).bind Issue.ofDocument? = some issue) ∧
    (∀ share : Partition, share.index < UInt64.size → share.count < UInt64.size →
      (Document.read share.toJson.render).bind Partition.ofDocument? = some share) ∧
    (∀ signal : Signal, signal.id < UInt64.size →
      (Document.read signal.toJson.render).bind Signal.ofDocument? = some signal) ∧
    (∀ greeting : Greeting,
      (Document.read greeting.toJson.render).bind Greeting.ofDocument? = some greeting) ∧
    (∀ order : RunOrder,
      (∀ share ∈ order.share, share.index < UInt64.size ∧ share.count < UInt64.size) →
      order.signal.id < UInt64.size →
      (Document.read order.toJson.render).bind RunOrder.ofDocument? = some order) ∧
    (∀ order : SeedOrder,
      (Document.read order.toJson.render).bind SeedOrder.ofDocument? = some order) ∧
    (∀ order : CancelOrder, order.token < UInt64.size →
      (Document.read order.toJson.render).bind CancelOrder.ofDocument? = some order) ∧
    (∀ fault : Fault, (Document.read fault.toJson.render).bind Fault.ofDocument? = some fault) ∧
    (∀ message : Message, message.Sendable →
      Message.read message.toJson.render = some message.arrived) ∧
    (∀ message : Message, message.IsKept →
      (∀ answer, message = .response answer → answer.result ≠ some .null) →
      message.arrived = message) ∧
    (∀ answer : Response, answer.result = some .null →
      (Message.response answer).arrived = .response { answer with result := none } ∧
        Response.outcome { answer with result := none } = answer.outcome) ∧
    (∀ message found : Message, message.Sendable →
      Message.read message.toJson.render = some found → message.SameKind found) ∧
    (∀ (messages : List (List String × Message)) (after : List String),
      (∀ entry ∈ messages,
        entry.2.Sendable ∧ ∀ text ∈ entry.1, Wire.IsBlankLine text) →
      (∀ text ∈ after, Wire.IsBlankLine text) →
      Wire.readAll (Wire.written messages ++ Wire.blankLines after) =
        messages.map fun entry => .message entry.2.arrived) := by
  refine ⟨fun change => change.travels.text, fun issue => issue.travels.text,
    fun share index count => (Partition.travels index count).text,
    fun signal id => (Signal.travels id).text, fun greeting => greeting.travels.text,
    fun order share signal => (RunOrder.travels share signal).text,
    fun order => order.travels.text, fun order token => (CancelOrder.travels token).text,
    fun fault => fault.travels.text, fun message => Message.read_render,
    fun message => Message.arrived_of_isKept, fun answer null => ?_,
    fun message found sendable read => ?_, Wire.readAll_written⟩
  · obtain ⟨id, result, fault⟩ := answer
    cases null
    exact ⟨rfl, rfl⟩
  · rw [Message.read_render sendable] at read
    cases read
    cases message <;> trivial

/-- A line feed inside a text, and behind blank lines an answer that is null. -/
theorem null_behind_blank_lines :
    Wire.readAll
      (Wire.written
          [([], .notification ⟨"note", .string "a\n\"b\""⟩),
            (["", " \t"], .response ⟨18446744073709551615, some .null, none⟩)] ++
        Wire.blankLines ["\r"]) =
      [.message (.notification ⟨"note", .string "a\n\"b\""⟩),
        .message (.response ⟨18446744073709551615, none, none⟩)] := by
  obtain ⟨_, _, _, _, _, _, _, _, _, _, _, _, _, lines⟩ := wire_formats_round_trip
  refine lines _ ["\r"] ?_ ?_
  · intro entry member
    simp only [List.mem_cons, List.not_mem_nil, or_false] at member
    rcases member with rfl | rfl
    · refine ⟨⟨⟨trivial, trivial, trivial⟩, by decide⟩, fun text none => ?_⟩
      exact (List.not_mem_nil none).elim
    · refine ⟨⟨?_, by decide⟩, by decide⟩
      simp [Message.toJson, Message.whenSome, IsWhole, FieldsWhole, Json.nat]
  · decide

end Reanalysis
