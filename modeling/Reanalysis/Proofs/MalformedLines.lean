/-
Bytes that come in piece by piece amount to their lines. Lines that hold text but no message
leave a channel as it was; the first line that is not text closes it, and what stands behind
is not looked at any more.
-/

import Reanalysis.Proofs.MessageLines
import Reanalysis.Wire.Channel

namespace Reanalysis

namespace Wire

def cut (bytes : List UInt8) : List UInt8 × List (List UInt8) := bytes.foldl cutByte ([], [])

theorem cutByte_ended (bytes : List UInt8) {begun : List UInt8} {lines : List (List UInt8)}
    (unbroken : 0x0A ∉ begun) (ended : ∀ line ∈ lines, line.getLast? = some 0x0A) :
    0x0A ∉ (bytes.foldl cutByte (begun, lines)).1 ∧
      ∀ line ∈ (bytes.foldl cutByte (begun, lines)).2, line.getLast? = some 0x0A := by
  induction bytes generalizing begun lines with
  | nil => exact ⟨unbroken, ended⟩
  | cons byte rest ih =>
      rw [List.foldl_cons]
      by_cases ends : byte = 0x0A
      · rw [cutByte, if_pos ends]
        refine ih List.not_mem_nil (List.forall_mem_cons.mpr ⟨?_, ended⟩)
        rw [List.reverse_cons, List.getLast?_concat, ends]
      · rw [cutByte, if_neg ends]
        refine ih (fun member => ?_) ended
        exact (List.mem_cons.mp member).elim (fun same => ends same.symm) unbroken

theorem cut_ended (bytes : List UInt8) :
    0x0A ∉ (cut bytes).1.reverse ∧ ∀ line ∈ (cut bytes).2, line.getLast? = some 0x0A := by
  obtain ⟨unbroken, ended⟩ := @cutByte_ended bytes [] []
    List.not_mem_nil (fun _ none => (List.not_mem_nil none).elim)
  exact ⟨fun member => unbroken (List.mem_reverse.mp member), ended⟩

theorem cut_unbroken {bytes : List UInt8} (unbroken : 0x0A ∉ bytes) :
    cut bytes = (bytes.reverse, []) := by
  rw [cut, cutByte_line unbroken, List.append_nil]

theorem cut_append (bytes rest : List UInt8) :
    cut (bytes ++ rest) =
      ((cut ((cut bytes).1.reverse ++ rest)).1,
        (cut ((cut bytes).1.reverse ++ rest)).2 ++ (cut bytes).2) := by
  have again : cut ((cut bytes).1.reverse ++ rest) = rest.foldl cutByte ((cut bytes).1, []) := by
    rw [cut, List.foldl_append, cutByte_line (cut_ended bytes).1, List.append_nil,
      List.reverse_reverse]
  rw [again, ← cutByte_behind, List.nil_append, cut, List.foldl_append]
  rfl

theorem cut_entries {entries : List Entry} (sound : ∀ entry ∈ entries, entry.IsSound) :
    cut (entries.flatMap Entry.bytes) = ([], (entries.map Entry.bytes).reverse) := by
  induction entries with
  | nil => rfl
  | cons entry rest ih =>
      have line : cut entry.bytes = ([], [entry.bytes]) := by
        rw [Entry.bytes, cut, List.foldl_append,
          cutByte_line (Entry.unbroken (sound entry List.mem_cons_self)), List.append_nil,
          List.foldl_cons, cutByte, if_pos rfl, List.reverse_cons, List.reverse_reverse]
        rfl
      rw [List.flatMap_cons, cut_append, line]
      dsimp only
      rw [List.reverse_nil, List.nil_append,
        ih (fun other member => sound other (List.mem_cons_of_mem _ member)), List.map_cons,
        List.reverse_cons]

end Wire

namespace Channel

def feedAll (channel : Channel) : List (List UInt8) → Channel × List ChannelEffect
  | [] => (channel, [])
  | piece :: rest =>
      let (next, done) := channel.feed piece
      let (last, later) := feedAll next rest
      (last, done ++ later)

theorem feedAll_singleton (channel : Channel) (bytes : List UInt8) :
    channel.feedAll [bytes] = channel.feed bytes := by
  simp [feedAll]

def dispatchAll (channel : Channel) : List Message → Channel × List ChannelEffect
  | [] => (channel, [])
  | message :: rest =>
      let (next, done) := channel.dispatch message
      let (last, later) := dispatchAll next rest
      (last, done ++ later)

theorem dispatchAll_cons (channel : Channel) (message : Message) (rest : List Message) :
    channel.dispatchAll (message :: rest) =
      (((channel.dispatch message).1.dispatchAll rest).1,
        (channel.dispatch message).2 ++ ((channel.dispatch message).1.dispatchAll rest).2) := rfl

def keeping (begun : List UInt8) (step : Channel × List ChannelEffect) :
    Channel × List ChannelEffect := ({ step.1 with partialLine := begun }, step.2)

theorem wakeWriter_keeping (channel : Channel) (begun : List UInt8) :
    { channel with partialLine := begun }.wakeWriter =
      { channel.wakeWriter with partialLine := begun } := by
  unfold wakeWriter
  dsimp only
  split <;> rfl

def carry (channel : Channel) : Effect → Channel × List ChannelEffect
  | .send message =>
      if channel.outlet = .ended then (channel, [])
      else ({ channel with queue := channel.queue ++ [message] }.wakeWriter, [])
  | .settle call outcome => (channel, [.settle call outcome])
  | .serve request =>
      ({ channel with turns := channel.turns ++ [.handler request] }, [.accept request])
  | .hear notice => (channel, [.hear notice])

theorem perform_cons (channel : Channel) (effect : Effect) (rest : List Effect) :
    channel.perform (effect :: rest) =
      (((channel.carry effect).1.perform rest).1,
        (channel.carry effect).2 ++ ((channel.carry effect).1.perform rest).2) := by
  cases effect <;> rfl

theorem carry_keeping (channel : Channel) (begun : List UInt8) (effect : Effect) :
    { channel with partialLine := begun }.carry effect = keeping begun (channel.carry effect) := by
  cases effect with
  | send message =>
      by_cases ended : channel.outlet = .ended
      · simp only [carry, if_pos ended]
        rfl
      · simp only [carry, if_neg ended]
        exact congrArg (·, [])
          (wakeWriter_keeping { channel with queue := channel.queue ++ [message] } begun)
  | settle call outcome => rfl
  | serve request => rfl
  | hear notice => rfl

theorem perform_keeping (channel : Channel) (begun : List UInt8) (effects : List Effect) :
    { channel with partialLine := begun }.perform effects =
      keeping begun (channel.perform effects) := by
  induction effects generalizing channel with
  | nil => rfl
  | cons effect rest ih =>
      rw [perform_cons, perform_cons, carry_keeping]
      dsimp only [keeping]
      rw [ih]
      rfl

theorem dispatch_keeping (channel : Channel) (begun : List UInt8) (message : Message) :
    { channel with partialLine := begun }.dispatch message =
      keeping begun (channel.dispatch message) :=
  perform_keeping { channel with endpoint := (channel.endpoint.dispatch message).1 } begun _

theorem close_keeping (channel : Channel) (begun : List UInt8) (reason : String) :
    { channel with partialLine := begun }.close reason = keeping begun (channel.close reason) := by
  unfold close
  dsimp only
  split
  · rfl
  · rw [← perform_keeping, ← wakeWriter_keeping]

theorem takeLine_keeping (channel : Channel) (begun line : List UInt8) :
    { channel with partialLine := begun }.takeLine line =
      keeping begun (channel.takeLine line) := by
  unfold takeLine
  dsimp only
  split
  · rfl
  · split
    · rfl
    · rfl
    · exact dispatch_keeping channel begun _
    · exact close_keeping channel begun _

theorem takeLines_keeping (channel : Channel) (begun : List UInt8) (lines : List (List UInt8)) :
    { channel with partialLine := begun }.takeLines lines =
      keeping begun (channel.takeLines lines) := by
  induction lines generalizing channel with
  | nil => rfl
  | cons line rest ih =>
      unfold takeLines
      dsimp only
      rw [takeLine_keeping]
      dsimp only [keeping]
      rw [ih]
      rfl

theorem takeLines_append (channel : Channel) (lines later : List (List UInt8)) :
    channel.takeLines (lines ++ later) =
      (((channel.takeLines lines).1.takeLines later).1,
        (channel.takeLines lines).2 ++ ((channel.takeLines lines).1.takeLines later).2) := by
  induction lines generalizing channel with
  | nil => rfl
  | cons line rest ih =>
      rw [List.cons_append, takeLines, takeLines]
      dsimp only
      rw [ih, List.append_assoc]

/-! ### Pieces -/

open Wire in
theorem feed_eq (channel : Channel) (bytes : List UInt8) :
    channel.feed bytes =
      { channel with partialLine := (cut (channel.partialLine ++ bytes)).1.reverse }.takeLines
        (cut (channel.partialLine ++ bytes)).2.reverse := by
  obtain ⟨unbroken, ended⟩ := cut_ended (channel.partialLine ++ bytes)
  unfold feed
  rw [cutLines_eq, ← cut]
  generalize cut (channel.partialLine ++ bytes) = cut at unbroken ended ⊢
  obtain ⟨begun, lines⟩ := cut
  dsimp only at unbroken ended ⊢
  cases begun with
  | nil =>
      have whole :
          lines.reverse.getLast?.filter (fun line => line.getLast? ≠ some 0x0A) = none := by
        rw [List.getLast?_reverse]
        cases lines with
        | nil => rfl
        | cons line rest => simp [ended line List.mem_cons_self]
      rw [if_pos List.isEmpty_nil, whole]
      rfl
  | cons byte rest =>
      have started : (byte :: rest).reverse.getLast? ≠ some 0x0A := fun ends =>
        unbroken (List.mem_of_getLast? ends)
      generalize (byte :: rest).reverse = line at started ⊢
      have broken : (line :: lines).reverse.getLast?.filter
          (fun line => line.getLast? ≠ some 0x0A) = some line := by
        rw [List.reverse_cons, List.getLast?_concat, Option.filter_some, if_pos (by simpa)]
      rw [if_neg (by simp), broken, List.reverse_cons]
      simp

open Wire in
/-- It does not matter into which pieces bytes are cut. -/
theorem feedAll_eq (channel : Channel) (pieces : List (List UInt8))
    (unbroken : 0x0A ∉ channel.partialLine) :
    channel.feedAll pieces =
      { channel with
        partialLine := (cut (channel.partialLine ++ pieces.flatten)).1.reverse }.takeLines
        (cut (channel.partialLine ++ pieces.flatten)).2.reverse := by
  -- What is kept of a line between two pieces is all that one piece knows of those before it.
  induction pieces generalizing channel with
  | nil =>
      rw [List.flatten_nil, List.append_nil, cut_unbroken unbroken, List.reverse_reverse]
      rfl
  | cons piece rest ih =>
      have begun := (cut_ended (channel.partialLine ++ piece)).1
      rw [feedAll, feed_eq, List.flatten_cons, ← List.append_assoc,
        cut_append (channel.partialLine ++ piece), takeLines_keeping]
      dsimp only [keeping]
      rw [ih _ begun]
      dsimp only
      rw [List.reverse_append, takeLines_append]
      simp only [takeLines_keeping, keeping]

/-! ### Lines of all kinds -/

theorem perform_open (channel : Channel) (effects : List Effect) :
    (channel.perform effects).1.endpoint = channel.endpoint ∧
      (channel.perform effects).1.reading = channel.reading := by
  induction effects generalizing channel with
  | nil => exact ⟨rfl, rfl⟩
  | cons effect rest ih =>
      rw [perform_cons]
      obtain ⟨sameEndpoint, sameReading⟩ := ih (channel.carry effect).1
      have same : (channel.carry effect).1.endpoint = channel.endpoint ∧
          (channel.carry effect).1.reading = channel.reading := by
        cases effect with
        | send message =>
            unfold carry wakeWriter
            dsimp only
            split
            · exact ⟨rfl, rfl⟩
            · split <;> exact ⟨rfl, rfl⟩
        | settle call outcome => exact ⟨rfl, rfl⟩
        | serve request => exact ⟨rfl, rfl⟩
        | hear notice => exact ⟨rfl, rfl⟩
      exact ⟨sameEndpoint.trans same.1, sameReading.trans same.2⟩

theorem dispatch_open (channel : Channel) (message : Message) :
    (channel.dispatch message).1.endpoint.closed = channel.endpoint.closed ∧
      (channel.dispatch message).1.reading = channel.reading := by
  obtain ⟨sameEndpoint, sameReading⟩ := perform_open
    { channel with endpoint := (channel.endpoint.dispatch message).1 }
    (channel.endpoint.dispatch message).2
  refine ⟨(congrArg Endpoint.closed sameEndpoint).trans ?_, sameReading⟩
  cases message with
  | request call => unfold Endpoint.dispatch; dsimp only; split <;> rfl
  | response answer => unfold Endpoint.dispatch; dsimp only; split <;> rfl
  | notification notice => rfl

theorem dispatchAll_open (channel : Channel) (messages : List Message) :
    (channel.dispatchAll messages).1.endpoint.closed = channel.endpoint.closed ∧
      (channel.dispatchAll messages).1.reading = channel.reading := by
  induction messages generalizing channel with
  | nil => exact ⟨rfl, rfl⟩
  | cons message rest ih =>
      obtain ⟨sameClosed, sameReading⟩ := dispatch_open channel message
      have later := ih (channel.dispatch message).1
      exact ⟨later.1.trans sameClosed, later.2.trans sameReading⟩

end Channel

namespace Wire

/-- Bytes that stand for no text. -/
def Garbled (bytes : List UInt8) : Prop := ∀ text, bytes ≠ Utf8.encode text

theorem Entry.line?_other (bytes : List UInt8) :
    (Garbled bytes ∧ ∃ fault, Utf8.decode (bytes ++ [0x0A]) = .error fault ∧
      (Entry.other bytes).line? = some (.undecodable fault)) ∨
    (¬Garbled bytes ∧ (Entry.other bytes).line? = some .malformed) := by
  cases decoded : Utf8.decode (bytes ++ [0x0A]) with
  | ok text =>
      obtain ⟨before, written⟩ := text_before_lineFeed (Utf8.decode_eq_ok.mp decoded)
      refine Or.inr ⟨fun garbled => garbled before written, ?_⟩
      simp only [Entry.line?, decoded]
  | error fault =>
      refine Or.inl ⟨?_, fault, rfl, by simp only [Entry.line?, decoded]⟩
      rintro text rfl
      rw [← encode_lineFeed, ← Utf8.encode_append, Utf8.decode_encode] at decoded
      cases decoded

def messages (entries : List Entry) : List Message :=
  entries.filterMap fun entry =>
    match entry with
    | .message _ held => some held
    | _ => none

def AllText (entries : List Entry) : Prop := ∀ bytes, .other bytes ∈ entries → ¬Garbled bytes

end Wire

namespace Channel

open Wire

theorem takeLines_text {channel : Channel} (reading : channel.reading = true)
    {entries : List Entry} (sound : ∀ entry ∈ entries, entry.IsSound) (readable : AllText entries) :
    channel.takeLines (entries.map Entry.bytes) = channel.dispatchAll (messages entries) := by
  induction entries generalizing channel with
  | nil => rfl
  | cons entry rest ih =>
      have line := readLine_entry (sound entry List.mem_cons_self)
      have later {next : Channel} (reading : next.reading = true) := ih reading
        (fun other member => sound other (List.mem_cons_of_mem _ member))
        (fun other member => readable other (List.mem_cons_of_mem _ member))
      have noLine (nothing : channel.takeLine entry.bytes = (channel, [])) :
          channel.takeLines ((entry :: rest).map Entry.bytes) =
            channel.dispatchAll (messages rest) := by
        rw [List.map_cons, takeLines, nothing]
        exact later reading
      cases entry with
      | message text held =>
          have took : channel.takeLine (Entry.message text held).bytes =
              channel.dispatch held := by
            unfold takeLine
            rw [reading, line]
            rfl
          rw [List.map_cons, takeLines, took]
          dsimp only
          rw [later ((dispatch_open channel held).2.trans reading)]
          rfl
      | blank blank =>
          refine noLine ?_
          unfold takeLine
          rw [reading, line]
          rfl
      | other bytes =>
          refine noLine ?_
          rcases Entry.line?_other bytes with ⟨garbled, _⟩ | ⟨_, malformed⟩
          · exact absurd garbled (readable bytes List.mem_cons_self)
          · unfold takeLine
            rw [reading, line, malformed]
            rfl

theorem takeLines_closed {channel : Channel} (left : channel.reading = false)
    (lines : List (List UInt8)) : channel.takeLines lines = (channel, []) := by
  induction lines with
  | nil => rfl
  | cons line rest ih =>
      have nothing : channel.takeLine line = (channel, []) := by
        unfold takeLine
        rw [left]
        rfl
      rw [takeLines, nothing]
      dsimp only
      rw [ih]
      rfl

theorem close_leaves {channel : Channel} (opened : channel.endpoint.closed = none)
    (reason : String) :
    (channel.close reason).1.reading = false ∧
      (channel.close reason).1.endpoint.closed = some reason := by
  have notClosed : ¬channel.endpoint.isClosed = true := by
    unfold Endpoint.isClosed
    rw [opened]
    exact Bool.false_ne_true
  have woken (channel : Channel) :
      channel.wakeWriter.reading = channel.reading ∧
        channel.wakeWriter.endpoint = channel.endpoint := by
    unfold wakeWriter
    dsimp only
    split <;> exact ⟨rfl, rfl⟩
  unfold close
  rw [if_neg notClosed]
  dsimp only
  obtain ⟨sameEndpoint, sameReading⟩ := perform_open
    { channel with endpoint := (channel.endpoint.close reason).1, reading := false }.wakeWriter
    (channel.endpoint.close reason).2
  refine ⟨sameReading.trans (woken _).1, ?_⟩
  rw [sameEndpoint, (woken _).2]
  unfold Endpoint.close
  rw [opened]

def dispatchThenClose (channel : Channel) (messages : List Message) (reason : String) :
    Channel × List ChannelEffect :=
  let (last, done) := channel.dispatchAll messages
  let (closed, later) := last.close reason
  (closed, done ++ later)

theorem takeLines_garbled {channel : Channel} (reading : channel.reading = true)
    (opened : channel.endpoint.closed = none) {front back : List Entry} {bytes : List UInt8}
    (sound : ∀ entry ∈ front ++ .other bytes :: back, entry.IsSound) (readable : AllText front)
    {fault : Utf8.Fault} (decoded : Utf8.decode (bytes ++ [0x0A]) = .error fault) :
    channel.takeLines ((front ++ .other bytes :: back).map Entry.bytes) =
      channel.dispatchThenClose (messages front)
        ("read failed: " ++ (CallError.broken fault.message).describe) := by
  have text := takeLines_text reading
    (fun entry member => sound entry (List.mem_append_left _ member)) readable
  obtain ⟨sameClosed, sameReading⟩ := channel.dispatchAll_open (messages front)
  have line : readLine (Entry.other bytes).bytes = some (.undecodable fault) := by
    rw [readLine_entry (sound _ (List.mem_append_right _ List.mem_cons_self))]
    simp only [Entry.line?, decoded]
  unfold dispatchThenClose
  rw [List.map_append, takeLines_append, text, List.map_cons, takeLines]
  generalize channel.dispatchAll (messages front) = state at sameClosed sameReading ⊢
  obtain ⟨last, done⟩ := state
  dsimp only at sameClosed sameReading ⊢
  have took : last.takeLine (Entry.other bytes).bytes =
      last.close ("read failed: " ++ (CallError.broken fault.message).describe) := by
    unfold takeLine
    rw [sameReading, reading, line]
    rfl
  rw [took, takeLines_closed (close_leaves (sameClosed.trans opened) _).1]
  dsimp only
  rw [List.append_nil]

theorem feedAll_entries {channel : Channel} (fresh : channel.partialLine = [])
    {entries : List Entry} (sound : ∀ entry ∈ entries, entry.IsSound)
    {pieces : List (List UInt8)} (whole : pieces.flatten = entries.flatMap Entry.bytes) :
    channel.feedAll pieces = channel.takeLines (entries.map Entry.bytes) := by
  rw [feedAll_eq channel pieces (by rw [fresh]; exact List.not_mem_nil), fresh, List.nil_append,
    whole, cut_entries sound, List.reverse_reverse, List.reverse_nil, ← fresh]

/-- A stream of lines amounts to its messages in order and to one refusal for each line that is
neither a message nor blank. As long as all lines are text, a channel takes in every message and
stays open, into whatever pieces the bytes are cut. The first line that is not text closes it
behind the messages before. -/
theorem lines_of_all_kinds {entries : List Entry}
    (sound : ∀ entry ∈ entries, entry.IsSound) :
    readAll (entries.flatMap Entry.bytes) = entries.filterMap Entry.line? ∧
    (∀ bytes, (Entry.other bytes).line? = some .malformed ↔ ¬Garbled bytes) ∧
    (∀ bytes, (∃ fault, (Entry.other bytes).line? = some (.undecodable fault)) ↔
      Garbled bytes) ∧
    ∀ (channel : Channel) (pieces : List (List UInt8)),
      channel.reading = true → channel.endpoint.closed = none → channel.partialLine = [] →
      pieces.flatten = entries.flatMap Entry.bytes →
      (AllText entries →
        channel.feedAll pieces = channel.dispatchAll (messages entries) ∧
          (channel.feedAll pieces).1.endpoint.closed = none) ∧
      ∀ front bytes back, entries = front ++ .other bytes :: back → AllText front →
        Garbled bytes →
        ∃ fault, Utf8.decode (bytes ++ [0x0A]) = .error fault ∧
          channel.feedAll pieces = channel.dispatchThenClose (messages front)
            ("read failed: " ++ (CallError.broken fault.message).describe) ∧
          (channel.feedAll pieces).1.endpoint.isClosed = true := by
  refine ⟨readAll_entries sound, fun bytes => ?_, fun bytes => ?_, ?_⟩
  · rcases Entry.line?_other bytes with ⟨garbled, fault, _, line⟩ | ⟨text, line⟩
    · simp [line, garbled]
    · simp [line, text]
  · rcases Entry.line?_other bytes with ⟨garbled, fault, _, line⟩ | ⟨text, line⟩
    · simp [line, garbled]
    · simp [line, text]
  · intro channel pieces reading opened fresh whole
    have fed := feedAll_entries fresh sound whole
    constructor
    · intro readable
      rw [fed, takeLines_text reading sound readable]
      exact ⟨rfl, (channel.dispatchAll_open (messages entries)).1.trans opened⟩
    · rintro front bytes back rfl readable garbled
      rcases Entry.line?_other bytes with ⟨_, fault, decoded, _⟩ | ⟨text, _⟩
      · refine ⟨fault, decoded, ?_⟩
        rw [fed, takeLines_garbled reading opened sound readable decoded]
        refine ⟨rfl, ?_⟩
        have last := (channel.dispatchAll_open (messages front)).1.trans opened
        exact congrArg Option.isSome (close_leaves last _).2
      · exact absurd garbled text

theorem garbled_255 : Garbled [0xFF] := by
  rintro text written
  have decoded : Utf8.decode [0xFF] = .ok text := Utf8.decode_eq_ok.mpr written
  rw [Utf8.decode, Utf8.decodeFrom] at decoded
  cases decoded

theorem isSound_nonsense : (Entry.other (Utf8.encode "x")).IsSound := by
  refine ⟨Utf8.lineFeed_not_mem_encode (by decide), fun text written => ?_⟩
  have same : text = "x" := by
    have decoded := Utf8.decode_encode text
    rw [written, Utf8.decode_encode] at decoded
    cases decoded
    rfl
  rw [same]
  refine ⟨fun blank => absurd (blank 'x' (by decide)) (by decide), ?_⟩
  change Message.read (String.ofList ['x']) = none
  unfold Message.read Document.read Json.Reader.whole
  rw [String.toList_ofList, Json.Reader.document, Json.Reader.front_cons (by decide)]
  rfl

theorem sendable_notice : (Message.notification ⟨"after", .null⟩).Sendable :=
  ⟨⟨trivial, trivial, trivial⟩, by decide⟩

theorem fault_255 : Utf8.decode ([0xFF] ++ [0x0A]) = .error ⟨0, some 1⟩ := by
  rw [Utf8.decode, List.cons_append, Utf8.decodeFrom]
  rfl

/-- Nonsense behind a message is passed over, and a byte that starts no text is where it ends. -/
theorem lines_of_all_kinds_mixed :
    readAll ([.ofMessage (.notification ⟨"after", .null⟩), .other (Utf8.encode "x"),
        .other [0xFF], .ofMessage (.notification ⟨"after", .null⟩)].flatMap Entry.bytes) =
      [.message (.notification ⟨"after", .null⟩), .malformed, .undecodable ⟨0, some 1⟩,
        .message (.notification ⟨"after", .null⟩)] ∧
    ((Channel.ofEndpoint Endpoint.new).feedAll
      ([Entry.ofMessage (.notification ⟨"after", .null⟩), .other (Utf8.encode "x"),
        .other [0xFF], .ofMessage (.notification ⟨"after", .null⟩)].map
          Entry.bytes)).1.endpoint.isClosed = true := by
  have sound : ∀ entry ∈ [Entry.ofMessage (.notification ⟨"after", .null⟩),
      .other (Utf8.encode "x"), .other [0xFF], .ofMessage (.notification ⟨"after", .null⟩)],
      entry.IsSound := by
    simp only [List.forall_mem_cons]
    exact ⟨Entry.isSound_ofMessage sendable_notice, isSound_nonsense,
      ⟨by decide, fun text written => absurd written.symm (garbled_255 text)⟩,
      Entry.isSound_ofMessage sendable_notice, fun _ none => (List.not_mem_nil none).elim⟩
  have nonsense : ¬Garbled (Utf8.encode "x") := fun garbled => garbled "x" rfl
  obtain ⟨all, malformed, _, closes⟩ := lines_of_all_kinds sound
  have undecodable : (Entry.other [0xFF]).line? = some (.undecodable ⟨0, some 1⟩) := by
    simp only [Entry.line?, fault_255]
  constructor
  · rw [all]
    simp only [List.filterMap_cons, (malformed _).mpr nonsense, undecodable]
    rfl
  · obtain ⟨_, stops⟩ := closes (Channel.ofEndpoint Endpoint.new) _ rfl rfl rfl
      (List.flatMap_def).symm
    obtain ⟨_, _, _, closed⟩ := stops
      [.ofMessage (.notification ⟨"after", .null⟩), .other (Utf8.encode "x")] [0xFF]
      [.ofMessage (.notification ⟨"after", .null⟩)] rfl
      (by
        intro bytes member
        simp only [List.mem_cons, List.not_mem_nil, or_false, Entry.ofMessage, reduceCtorEq,
          false_or, Entry.other.injEq] at member
        rw [member]
        exact nonsense)
      garbled_255
    exact closed

/-- A line that is not text is not refused as one without a message is, and it takes a channel
down: of the message behind it nothing is heard. -/
theorem garbled_line_closes :
    (Entry.other [0xFF]).IsSound ∧
    readAll ([0xFF, 0x0A] ++ Utf8.encode (Message.notification ⟨"after", .null⟩).line) ≠
      [.malformed, .message (.notification ⟨"after", .null⟩)] ∧
    ((Channel.ofEndpoint (Endpoint.new.listen "after")).feed
      ([0xFF, 0x0A] ++ Utf8.encode (Message.notification ⟨"after", .null⟩).line)).2 = [] ∧
    ((Channel.ofEndpoint (Endpoint.new.listen "after")).feed
      ([0xFF, 0x0A] ++
        Utf8.encode (Message.notification ⟨"after", .null⟩).line)).1.endpoint.isClosed = true := by
  have garbled : (Entry.other [0xFF]).IsSound :=
    ⟨by decide, fun text written => absurd written.symm (garbled_255 text)⟩
  have sound : ∀ entry ∈ [] ++ Entry.other [0xFF] :: [.ofMessage (.notification ⟨"after", .null⟩)],
      entry.IsSound := by
    simp only [List.nil_append, List.forall_mem_cons]
    exact ⟨garbled, Entry.isSound_ofMessage sendable_notice,
      fun _ none => (List.not_mem_nil none).elim⟩
  have whole : [0xFF, 0x0A] ++ Utf8.encode (Message.notification ⟨"after", .null⟩).line =
      ([] ++ Entry.other [0xFF] :: [.ofMessage (.notification ⟨"after", .null⟩)]).flatMap
        Entry.bytes := by
    rw [← Entry.bytes_ofMessage]
    simp [Entry.bytes, Entry.content]
  have lines : (Channel.ofEndpoint (Endpoint.new.listen "after")).feed
      ([0xFF, 0x0A] ++ Utf8.encode (Message.notification ⟨"after", .null⟩).line) =
      (Channel.ofEndpoint (Endpoint.new.listen "after")).dispatchThenClose []
        ("read failed: " ++ (CallError.broken (Utf8.Fault.mk 0 (some 1)).message).describe) := by
    have once : [[0xFF, 0x0A] ++
        Utf8.encode (Message.notification ⟨"after", .null⟩).line].flatten = _ :=
      List.flatten_singleton.trans whole
    rw [← feedAll_singleton, feedAll_entries rfl sound once,
      takeLines_garbled rfl rfl sound (fun _ none => (List.not_mem_nil none).elim) fault_255]
    rfl
  refine ⟨garbled, ?_, ?_, ?_⟩
  · rw [whole, readAll_entries sound]
    simp only [List.nil_append, List.filterMap_cons, Entry.line?, fault_255]
    intro same
    cases same
  · rw [lines]
    rfl
  · rw [lines]
    rfl

end Channel

end Reanalysis
