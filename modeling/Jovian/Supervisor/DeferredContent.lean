import Jovian.Supervisor.PollLoop

/-!
# Jovian — large content, put into its frame as it came (`frameFor`)

A large content is not parsed to be written again: its text goes into the envelope. That is right
for JSON text only, and `deserialize` asks for one line of UTF-8. `json::parse` skips comments and
a byte order mark, so it also reads texts that no client reads in a frame; and what is no JSON at
all, `content()` makes an error object of, where the parser says `discarded`.

* **`deferral_transparent_iff`** — a message is relayed as if its content had been parsed exactly
  when its content, if it was kept as text, is read by the parser, and is plain JSON if a frame is
  made of it.
-/

namespace Jovian.Supervisor

open Utf8 (Bytes)
open Wire (Codec MessageBase Signed)

/-! ## What is promised -/

/-- What is read from a kernel, kept as text where that may be, and parsed: both give the same. -/
structure SameMessage (k : Codec) (kept parsed : MessageBase) : Prop where
  /-- A client reads the same in both frames, or there is none. -/
  frames : ∀ channel topic,
    (frameFor k channel topic kept).map (Json.read .strict) =
      (frameFor k channel topic parsed).map (Json.read .strict)
  oneLine : kept.contentText ≠ none → ∀ channel topic frame,
    frameFor k channel topic kept = .ok frame →
      (∀ c ∈ frame, 0x20 ≤ c.toNat) ∧ Json.read .strict frame ≠ none
  content : kept.content k = parsed.content k

/-- `deserialize` and `deserializeIopub` give the same message with and without deferral. -/
def Transparent (k : Codec) (wire : List Bytes) : Prop :=
  (∀ kept parsed, Wire.deserialize k true wire = .ok kept →
    Wire.deserialize k false wire = .ok parsed → SameMessage k kept.base parsed.base) ∧
  (∀ kept parsed, Wire.deserializeIopub k true wire = .ok kept →
    Wire.deserializeIopub k false wire = .ok parsed → SameMessage k kept.base parsed.base)

/-- `json::parse` on UTF-8. -/
def ParsesJson (k : Codec) (inRange : String → Bool) : Prop :=
  ∀ bytes text, Utf8.decode bytes = some text → k.parse bytes = Json.parse inRange text

/-- A text that may be kept: the parser reads it, and so does a client where it is put in a frame. -/
def Keepable (k : Codec) (inRange : String → Bool) (header parentHeader content : Bytes) : Prop :=
  ∃ text, Utf8.decode content = some text ∧ Json.parse inRange text ≠ .discarded ∧
    (Framed k header parentHeader → Json.read .strict text ≠ none)

/-! ## The envelope -/

section Envelope

variable (channel topic msgType parentMsgId : String)

theorem canonical_envelope :
    Json.Canonical (.object (envelope channel topic msgType parentMsgId)) := by
  refine .object ?_ ?_
  · simp only [envelope, List.pairwise_cons, List.mem_cons, List.not_mem_nil, or_false,
      forall_eq_or_imp, forall_eq, List.Pairwise.nil, and_true, false_implies, implies_true]
    decide
  · intro m hm
    simp only [envelope, List.mem_cons, List.not_mem_nil, or_false] at hm
    obtain rfl | rfl | rfl | rfl | rfl := hm <;> exact .string _

theorem plain_envelope :
    ∀ t ∈ Json.tokens (.object (envelope channel topic msgType parentMsgId)),
      ∀ s, t ≠ .number s := by
  simp [envelope, Json.tokens, Json.moreMembers]

/-- What is in front of a content: the envelope without its closing brace, and a key. -/
theorem openMember_plain :
    ∀ c ∈ Json.openMember (envelope channel topic msgType parentMsgId) "content", 0x20 ≤ c.toNat := by
  have hkey : ∀ t ∈ [Json.Token.comma, .string "content", .colon], ∀ s, t ≠ .number s := by simp
  intro c hc
  obtain hc | hc := List.mem_append.1 hc
  · exact Json.texts_plain (plain_envelope channel topic msgType parentMsgId) c
      (List.mem_of_mem_dropLast hc)
  · exact Json.texts_plain hkey c hc

end Envelope

/-! ## Frames -/

/-- A frame with some members, as `frameFor` writes it. -/
def frameText (k : Codec) (members : List (String × Json)) (m : MessageBase) : List Char :=
  match m.contentText with
  | none => Json.dump (.object (Json.setMember "content" (m.content k) members))
  | some text => Json.openMember members "content" ++ (Utf8.decode text).getD [] ++ ['}']

section Frame

variable {k : Codec} {channel : String} {topic : Except Json.Error String} {m : MessageBase}

theorem frameFor_eq : frameFor k channel topic m = (do
    let msgType ← m.header.valueString "msg_type" ""
    let parentMsgId ← m.parentHeader.valueString "msg_id" ""
    let topic ← topic
    return frameText k (envelope channel topic msgType parentMsgId) m) := by
  unfold frameFor frameText
  cases m.contentText with
  | none => rfl
  | some text =>
    have hkey : ",\"content\":".toList = Json.texts [.comma, .string "content", .colon] := by decide
    simp only [hkey, Json.openMember, List.append_assoc]

/-- A frame is made of a message whose headers can be read. -/
theorem frameFor_framed (hheader : Reads m.header "msg_type")
    (hparent : Reads m.parentHeader "msg_id") (channel topic : String) :
    ∃ msgType parentMsgId, frameFor k channel (.ok topic) m =
      .ok (frameText k (envelope channel topic msgType parentMsgId) m) := by
  obtain ⟨msgType, htype⟩ := reads_iff.2 hheader
  obtain ⟨parentMsgId, hid⟩ := reads_iff.2 hparent
  refine ⟨msgType, parentMsgId, ?_⟩
  rw [frameFor_eq, htype, hid]
  rfl

theorem frameFor_ok {frame : List Char} (h : frameFor k channel topic m = .ok frame) :
    Reads m.header "msg_type" ∧ Reads m.parentHeader "msg_id" ∧
      ∃ topic msgType parentMsgId,
        frame = frameText k (envelope channel topic msgType parentMsgId) m := by
  obtain ⟨hheader, hparent, s, rfl⟩ := (frameFor_ok_iff channel topic m).1 ⟨frame, h⟩
  obtain ⟨msgType, parentMsgId, hframe⟩ := frameFor_framed (k := k) hheader hparent channel s
  rw [hframe] at h
  exact ⟨hheader, hparent, s, msgType, parentMsgId, (Except.ok.inj h).symm⟩

/-- Two messages with the same headers: their frames read alike, or there are none. -/
theorem frames_alike {m' : MessageBase} (hheader : m.header = m'.header)
    (hparent : m.parentHeader = m'.parentHeader)
    (h : Reads m.header "msg_type" → Reads m.parentHeader "msg_id" →
      ∀ channel topic msgType parentMsgId,
        Json.read .strict (frameText k (envelope channel topic msgType parentMsgId) m) =
          Json.read .strict (frameText k (envelope channel topic msgType parentMsgId) m'))
    (channel : String) (topic : Except Json.Error String) :
    (frameFor k channel topic m).map (Json.read .strict) =
      (frameFor k channel topic m').map (Json.read .strict) := by
  rw [frameFor_eq, frameFor_eq, ← hheader, ← hparent]
  cases htype : m.header.valueString "msg_type" "" with
  | error e => rfl
  | ok msgType =>
    cases hid : m.parentHeader.valueString "msg_id" "" with
    | error e => rfl
    | ok parentMsgId =>
      cases topic with
      | error e => rfl
      | ok topic =>
        show Except.ok (Json.read .strict (frameText k _ m)) = .ok (Json.read .strict (frameText k _ m'))
        rw [h (reads_iff.1 ⟨_, htype⟩) (reads_iff.1 ⟨_, hid⟩)]

/-- The frame of a parsed content reads as the envelope with that content. -/
theorem read_parsed {content : Json} (channel topic msgType parentMsgId : String)
    (htext : m.contentText = none) (hcontent : m.content k = content) (hc : content.Canonical) :
    Json.read .strict (frameText k (envelope channel topic msgType parentMsgId) m) =
      some (.object (Json.setMember "content" content (envelope channel topic msgType parentMsgId))) := by
  have hcanonical := canonical_envelope channel topic msgType parentMsgId
  rw [frameText, htext, hcontent]
  refine Json.read_dump ?_
  cases hcanonical with
  | object hsorted hall =>
    refine .object (Json.setMember_sorted _ _ hsorted) fun n hn => ?_
    obtain rfl | hn := Json.mem_setMember hn
    · exact hc
    · exact hall n hn

/-- So does the frame of a content that was kept as plain JSON. -/
theorem read_kept {bytes : Bytes} {text : List Char} {content : Json}
    (channel topic msgType parentMsgId : String) (htext : m.contentText = some bytes)
    (hdecode : Utf8.decode bytes = some text) (hread : Json.read .strict text = some content) :
    Json.read .strict (frameText k (envelope channel topic msgType parentMsgId) m) =
      some (.object (Json.setMember "content" content (envelope channel topic msgType parentMsgId))) := by
  simp only [frameText, htext, hdecode, Option.getD_some]
  exact Json.read_splice "content" (canonical_envelope channel topic msgType parentMsgId) hread

end Frame

/-! ## Deferral -/

section Deferral

variable {k : Codec} {inRange : String → Bool} {header parentHeader metadata content : Bytes}
  {buffers : List Bytes}

theorem readMessage_not_deferred (h : Wire.isDeferred true content = false) :
    Wire.readMessage k true header parentHeader metadata content buffers =
      Wire.readMessage k false header parentHeader metadata content buffers := by
  unfold Wire.readMessage
  rw [h]
  rfl

@[simp] theorem readMessage_parsed_text :
    (Wire.readMessage k false header parentHeader metadata content buffers).contentText = none := by
  simp [Wire.isDeferred]

@[simp] theorem readMessage_parsed_content :
    (Wire.readMessage k false header parentHeader metadata content buffers).content k =
      k.parse content := by
  simp [Wire.readMessage, Wire.isDeferred, MessageBase.content]

/-- A content that was kept reads as it was parsed, but for what is no JSON at all. -/
theorem readMessage_kept_content (h : Wire.isDeferred true content = true) :
    (Wire.readMessage k true header parentHeader metadata content buffers).content k =
      k.parse content ↔ k.parse content ≠ .discarded := by
  simp only [Wire.readMessage, h, if_true, MessageBase.content, MessageBase.deferContent,
    MessageBase.parseDeferredContent, Option.getD_some]
  cases k.parse content <;> simp

/-- A content that is kept is a text on one line. -/
theorem oneLine_of_deferred (h : Wire.isDeferred true content = true) :
    Wire.IsOneLine (Utf8.decode content) := by
  simp only [Wire.isDeferred, Bool.and_eq_true] at h
  exact (Wire.isOneLineOfUtf8_iff content).1 h.2

theorem sameMessage_refl {m : MessageBase} (h : m.contentText = none) : SameMessage k m m where
  frames _ _ := rfl
  oneLine hne := absurd h hne
  content := rfl

theorem sameMessage_of_keepable (hk : ParsesJson k inRange)
    (hdeferred : Wire.isDeferred true content = true)
    (h : Keepable k inRange header parentHeader content) :
    SameMessage k (Wire.readMessage k true header parentHeader metadata content buffers)
      (Wire.readMessage k false header parentHeader metadata content buffers) := by
  obtain ⟨text, hdecode, hparse, hplain⟩ := h
  have hparse' : k.parse content = Json.parse inRange text := hk content text hdecode
  have htext : (Wire.readMessage k true header parentHeader metadata content buffers).contentText =
      some content := by
    rw [Wire.readMessage_contentText, hdeferred, if_pos rfl]
  -- what a client reads of the text is what the parser makes of it
  have hread : Framed k header parentHeader →
      Json.read .strict text = some (Json.parse inRange text) := fun hframed => by
    obtain ⟨v, hv⟩ := Option.ne_none_iff_exists'.1 (hplain hframed)
    refine Json.parse_of_splice "content" (canonical_envelope "" "" "" "") hparse ?_
    have hsplice := Json.read_splice "content" (canonical_envelope "" "" "" "") hv
    exact fun hnone => Option.some_ne_none _ (hsplice.symm.trans hnone)
  refine ⟨frames_alike ?_ ?_ ?_, ?_, ?_⟩
  · rw [Wire.readMessage_header, Wire.readMessage_header]
  · rw [Wire.readMessage_parentHeader, Wire.readMessage_parentHeader]
  · intro hheader hparent channel topic msgType parentMsgId
    rw [Wire.readMessage_header] at hheader
    rw [Wire.readMessage_parentHeader] at hparent
    have hstrict := hread ⟨hheader, hparent⟩
    rw [read_kept channel topic msgType parentMsgId htext hdecode hstrict,
      read_parsed channel topic msgType parentMsgId readMessage_parsed_text
        (readMessage_parsed_content.trans hparse') (Json.read_canonical hstrict)]
  · intro _ channel topic frame hframe
    obtain ⟨hheader, hparent, topic, msgType, parentMsgId, rfl⟩ := frameFor_ok hframe
    rw [Wire.readMessage_header] at hheader
    rw [Wire.readMessage_parentHeader] at hparent
    constructor
    · obtain ⟨cs, hcs, hplain⟩ := oneLine_of_deferred hdeferred
      simp only [frameText, htext, hcs, Option.getD_some]
      intro c hc
      obtain hc | hc := List.mem_append.1 hc
      · obtain hc | hc := List.mem_append.1 hc
        · exact openMember_plain channel topic msgType parentMsgId c hc
        · exact hplain c hc
      · rw [List.mem_singleton.1 hc]
        decide
    · rw [read_kept channel topic msgType parentMsgId htext hdecode (hread ⟨hheader, hparent⟩)]
      exact Option.some_ne_none _
  · rw [readMessage_parsed_content, readMessage_kept_content hdeferred, hparse']
    exact hparse

theorem keepable_of_sameMessage (hk : ParsesJson k inRange)
    (hdeferred : Wire.isDeferred true content = true)
    (h : SameMessage k (Wire.readMessage k true header parentHeader metadata content buffers)
      (Wire.readMessage k false header parentHeader metadata content buffers)) :
    Keepable k inRange header parentHeader content := by
  obtain ⟨text, hdecode, -⟩ := oneLine_of_deferred hdeferred
  have htext : (Wire.readMessage k true header parentHeader metadata content buffers).contentText =
      some content := by
    rw [Wire.readMessage_contentText, hdeferred, if_pos rfl]
  have hparse : Json.parse inRange text ≠ .discarded := by
    have hcontent := h.content
    rw [readMessage_parsed_content, readMessage_kept_content hdeferred, hk content text hdecode]
      at hcontent
    exact hcontent
  refine ⟨text, hdecode, hparse, fun hframed => ?_⟩
  obtain ⟨msgType, parentMsgId, hframe⟩ := frameFor_framed (k := k)
    (m := Wire.readMessage k true header parentHeader metadata content buffers)
    (by rw [Wire.readMessage_header]; exact hframed.1)
    (by rw [Wire.readMessage_parentHeader]; exact hframed.2) "" ""
  have hread := (h.oneLine (by rw [htext]; exact Option.some_ne_none _) _ _ _ hframe).2
  simp only [frameText, htext, hdecode, Option.getD_some] at hread
  rw [Json.parse_of_splice "content" (canonical_envelope "" "" msgType parentMsgId) hparse hread]
  exact Option.some_ne_none _

/-- **One message**, kept and parsed. -/
theorem sameMessage_iff (hk : ParsesJson k inRange) :
    SameMessage k (Wire.readMessage k true header parentHeader metadata content buffers)
        (Wire.readMessage k false header parentHeader metadata content buffers) ↔
      (Wire.isDeferred true content = true → Keepable k inRange header parentHeader content) := by
  cases hdeferred : Wire.isDeferred true content with
  | false =>
    rw [readMessage_not_deferred hdeferred]
    exact iff_of_true (sameMessage_refl readMessage_parsed_text) (by simp)
  | true =>
    constructor
    · exact fun h _ => keepable_of_sameMessage hk hdeferred h
    · exact fun h => sameMessage_of_keepable hk hdeferred (h rfl)

/-- **When deferral is transparent**: exactly when every content that is kept as text is
`Keepable`. -/
theorem deferral_transparent_iff (hk : ParsesJson k inRange) (wire : List Bytes) :
    Transparent k wire ↔
      ∀ before header parentHeader metadata content buffers,
        Signed k wire before header parentHeader metadata content buffers →
        Wire.isDeferred true content = true → Keepable k inRange header parentHeader content := by
  constructor
  · intro h before header parentHeader metadata content buffers hsigned
    have hread : ∀ d, Wire.deserialize k d wire = .ok
        { identities := before
          base := Wire.readMessage k d header parentHeader metadata content buffers } := fun d =>
      Wire.deserialize_ok_iff.2 ⟨_, _, _, _, _, hsigned, rfl⟩
    exact (sameMessage_iff hk).1 (h.1 _ _ (hread true) (hread false))
  · intro h
    -- the same frames are read both times
    have hsame : ∀ {before before' : List Bytes} {header parentHeader metadata content : Bytes}
        {buffers : List Bytes} {header' parentHeader' metadata' content' : Bytes}
        {buffers' : List Bytes} {kept parsed : MessageBase},
        Signed k wire before header parentHeader metadata content buffers →
        Signed k wire before' header' parentHeader' metadata' content' buffers' →
        kept = Wire.readMessage k true header parentHeader metadata content buffers →
        parsed = Wire.readMessage k false header' parentHeader' metadata' content' buffers' →
        SameMessage k kept parsed := by
      rintro before _ header parentHeader metadata content buffers _ _ _ _ _ _ _
        hsigned ⟨s', hsplit', -⟩ rfl rfl
      obtain ⟨s, hsplit, -⟩ := id hsigned
      rw [hsplit] at hsplit'
      simp only [Option.some.injEq, Prod.mk.injEq, List.cons.injEq] at hsplit'
      obtain ⟨-, -, rfl, rfl, rfl, rfl, rfl⟩ := hsplit'
      exact (sameMessage_iff hk).2 (h _ _ _ _ _ _ hsigned)
    constructor
    · intro kept parsed hkept hparsed
      obtain ⟨_, _, _, _, _, hsigned, hbase⟩ := Wire.deserialize_ok_iff.1 hkept
      obtain ⟨_, _, _, _, _, hsigned', hbase'⟩ := Wire.deserialize_ok_iff.1 hparsed
      exact hsame hsigned hsigned' hbase hbase'
    · intro kept parsed hkept hparsed
      obtain ⟨_, _, _, _, _, _, hsigned, -, hbase⟩ := Wire.deserializeIopub_ok_iff.1 hkept
      obtain ⟨_, _, _, _, _, _, hsigned', -, hbase'⟩ := Wire.deserializeIopub_ok_iff.1 hparsed
      exact hsame hsigned hsigned' hbase hbase'

end Deferral

/-- A parser of UTF-8, and a signature that is always good. -/
def textCodec : Codec where
  parse bytes := ((Utf8.decode bytes).map (Json.parse fun _ => true)).getD .discarded
  verify _ _ _ _ _ := true

theorem textCodec_parses : ParsesJson textCodec fun _ => true := by
  intro bytes text h
  show ((Utf8.decode bytes).map _).getD _ = _
  rw [h]
  rfl

/-! ## Content with something behind it -/

def streamHeader : Json :=
  .object [("msg_type", .string "stream")]

/-- An empty array, and one character many times over. -/
def paddedText (c : Char) : List Char :=
  '[' :: ']' :: List.replicate 65536 c

def toBytes (text : List Char) : Bytes :=
  text.map fun c => c.toNat.toUInt8

/-- A signed message with a type, an empty parent header, and such a content. -/
def padded (c : Char) : List Bytes :=
  Wire.delimiter :: [] :: ([Json.dump streamHeader, Json.dump (.object []),
    Json.dump (.object []), paddedText c].map toBytes)

theorem canonical_streamHeader : streamHeader.Canonical := by
  refine .object (List.pairwise_singleton _ _) fun m hm => ?_
  rw [List.mem_singleton.1 hm]
  exact .string _

theorem textCodec_dump {j : Json} (hj : j.Canonical)
    (hascii : (Json.dump j).all (fun c => c.toNat < 0x80) = true) :
    textCodec.parse (toBytes (Json.dump j)) = j := by
  have hdecode : Utf8.decode (toBytes (Json.dump j)) = some (Json.dump j) :=
    Utf8.decode_ascii (by simpa only [List.all_eq_true, decide_eq_true_eq] using hascii)
  rw [textCodec_parses _ _ hdecode]
  exact Json.parse_of_read (Json.lex_dump hj) (Json.parseTokens_tokens hj) fun _ _ => rfl

theorem signed_padded (c : Char) : Signed textCodec (padded c) [] (toBytes (Json.dump streamHeader))
    (toBytes (Json.dump (.object []))) (toBytes (Json.dump (.object []))) (toBytes (paddedText c)) [] := by
  refine ⟨[], ?_, rfl⟩
  simp only [padded, Wire.splitDelimiter, if_true]
  rfl

theorem framed_padded :
    Framed textCodec (toBytes (Json.dump streamHeader)) (toBytes (Json.dump (.object []))) := by
  unfold Framed
  rw [textCodec_dump canonical_streamHeader rfl, textCodec_dump (.object .nil (by simp)) rfl]
  constructor
  · refine ⟨rfl, fun v hv => ?_⟩
    obtain rfl := Option.some.inj hv
    rfl
  · refine ⟨rfl, fun v hv => ?_⟩
    cases hv

section Padded

variable {c : Char}

theorem decode_padded (hc : c.toNat < 0x80) :
    Utf8.decode (toBytes (paddedText c)) = some (paddedText c) := by
  refine Utf8.decode_ascii fun d hd => ?_
  simp only [paddedText, List.mem_cons, List.mem_replicate] at hd
  obtain rfl | rfl | ⟨-, rfl⟩ := hd
  · decide
  · decide
  · exact hc

theorem deferred_padded (hlow : 0x20 ≤ c.toNat) (hc : c.toNat < 0x80) :
    Wire.isDeferred true (toBytes (paddedText c)) = true := by
  have hlong : Wire.kDeferredContentBytes ≤ (toBytes (paddedText c)).length := by
    simp only [toBytes, paddedText, List.length_map, List.length_cons, List.length_replicate,
      Wire.kDeferredContentBytes]
    decide
  have hline : Wire.isOneLineOfUtf8 (toBytes (paddedText c)) = true := by
    refine (Wire.isOneLineOfUtf8_iff _).2 ⟨_, decode_padded hc, fun d hd => ?_⟩
    simp only [paddedText, List.mem_cons, List.mem_replicate] at hd
    obtain rfl | rfl | ⟨-, rfl⟩ := hd
    · decide
    · decide
    · exact hlow
  simp only [Wire.isDeferred, hline, hlong, decide_true, Bool.and_true]

theorem lex_array (d : Json.Dialect) (u : List Char) :
    Json.lex d ('[' :: ']' :: u) = (Json.lex d u).map (.beginArray :: .endArray :: ·) := by
  have hend : ∀ c : Char, c ≠ '\x00' → d.endsAt c = false := fun c hc => by
    cases d with
    | strict => rfl
    | lenient inRange => simpa [Json.Dialect.endsAt] using hc
  rw [Json.lex_cons (hend '[' (by decide)) rfl, Json.lex_cons (hend ']' (by decide)) rfl,
    Option.map_map]
  rfl

theorem lex_blanks (n : Nat) : Json.lex .strict (List.replicate n ' ') = some [] := by
  induction n with
  | zero => rw [List.replicate_zero, Json.lex]
  | succ n ih =>
    rw [List.replicate_succ, Json.lex_lexeme rfl, ih]
    rfl

end Padded

/-- With blanks behind it the content is plain JSON. -/
theorem deferral_transparent_iff_blanks : Transparent textCodec (padded ' ') := by
  refine (deferral_transparent_iff textCodec_parses (padded ' ')).2 ?_
  rintro before header parentHeader metadata content buffers ⟨s, hsplit, -⟩ -
  obtain ⟨s', hsplit', -⟩ := signed_padded ' '
  rw [hsplit'] at hsplit
  simp only [Option.some.injEq, Prod.mk.injEq, List.cons.injEq] at hsplit
  obtain ⟨-, -, -, -, -, rfl, -⟩ := hsplit
  have hlex : Json.lex .strict (paddedText ' ') = some [.beginArray, .endArray] := by
    rw [paddedText, lex_array, lex_blanks]
    rfl
  have hparse : Json.parse (fun _ => true) (paddedText ' ') = .array [] :=
    Json.parse_of_read hlex rfl fun _ _ => rfl
  refine ⟨paddedText ' ', decode_padded (by decide), by rw [hparse]; exact Json.noConfusion, fun _ => ?_⟩
  rw [Json.read, hlex]
  exact Option.some_ne_none _

/-- **With a comment behind it it is not**: the parser reads it, and no client reads the frame. -/
theorem comment_not_transparent : ¬ Transparent textCodec (padded '/') := by
  intro h
  have hread : ∀ d, Wire.deserialize textCodec d (padded '/') = .ok
      { identities := []
        base := Wire.readMessage textCodec d (toBytes (Json.dump streamHeader))
          (toBytes (Json.dump (.object []))) (toBytes (Json.dump (.object [])))
          (toBytes (paddedText '/')) [] } := fun d =>
    Wire.deserialize_ok_iff.2 ⟨_, _, _, _, _, signed_padded '/', rfl⟩
  have hsame := h.1 _ _ (hread true) (hread false)
  dsimp only at hsame
  have hdeferred : Wire.isDeferred true (toBytes (paddedText '/')) = true :=
    deferred_padded (by decide) (by decide)
  obtain ⟨text, htext, -, hplain⟩ := keepable_of_sameMessage textCodec_parses hdeferred hsame
  rw [decode_padded (by decide)] at htext
  obtain rfl := Option.some.inj htext
  refine hplain framed_padded ?_
  have hslash : Json.lex .strict (List.replicate 65536 '/') = none := by
    rw [List.replicate_succ]
    exact Json.lex_none (List.cons_ne_nil _ _) rfl
  rw [Json.read, paddedText, lex_array, hslash]
  rfl

end Jovian.Supervisor
