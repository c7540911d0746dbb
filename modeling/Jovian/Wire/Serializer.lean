import Jovian.Lib.Json
import Jovian.Lib.Utf8

/-!
# Jovian — messages on the wire (`zmq_serializer.cpp`)

A message is a list of frames: some of them, a delimiter, a signature, the header, the parent
header, the metadata, the content, and buffers. What a reader of them is given from outside is
its `Codec`: `json::parse` of a frame's bytes, which returns `Json.discarded` for bytes that are
no JSON, and the check of a signature.

Large content may be kept as its text and parsed only when it is read (`deferContent`), where it is
one line of UTF-8.

* **`isOneLineOfUtf8_iff`** — the check that reads eight bytes at a time tells just that.
* **`deserializeMessageBase_ok_iff`** — which frames are read, and as what.
-/

namespace Jovian.Wire

open Utf8 (Bytes)

/-- What deserialising throws, and what reading a message throws. -/
inductive Exception where
  /-- `std::runtime_error` -/
  | runtime (what : String)
  | json (e : Json.Error)
deriving DecidableEq, Repr

structure Codec where
  parse : Bytes → Json
  /-- `auth.verify`: the signature, the header, the parent header, the metadata, the content. -/
  verify : Bytes → Bytes → Bytes → Bytes → Bytes → Bool

/-! ## Content that is kept as text -/

/-- `ZmqSerializer::kDeferredContentBytes` -/
def kDeferredContentBytes : Nat := 64 * 1024

/-- Skips eight bytes at a time while they are ASCII and none is below `0x20`. -/
def skipPlain (bs : Bytes) : Bytes :=
  if 8 ≤ bs.length ∧ Utf8.plainEight (UInt64.ofNat (Utf8.word (bs.take 8))) = true then
    skipPlain (bs.drop 8)
  else bs
termination_by bs.length
decreasing_by simp only [List.length_drop]; omega

theorem skipPlain_length (bs : Bytes) : (skipPlain bs).length ≤ bs.length := by
  induction bs using skipPlain.induct with
  | case1 bs h ih =>
    rw [skipPlain, if_pos h]
    exact Nat.le_trans ih (by simp)
  | case2 bs h =>
    rw [skipPlain, if_neg h]

/-- Whether a text is valid UTF-8 with no control character in it (so: on one line). -/
def isOneLineOfUtf8 (bs : Bytes) : Bool :=
  match _h : skipPlain bs with
  | [] => true
  | c :: rest =>
    if c < 0x20 then false
    else if c < 0x80 then isOneLineOfUtf8 rest
    else match _h' : Utf8.decodeMany c rest with
      | none => false
      | some (_, rest') => isOneLineOfUtf8 rest'
termination_by bs.length
decreasing_by
  · have hlen := skipPlain_length bs
    rw [_h, List.length_cons] at hlen
    omega
  · have hlen := skipPlain_length bs
    have hrest := Utf8.decodeMany_length _h'
    rw [_h, List.length_cons] at hlen
    omega

/-! ## Messages -/

structure MessageBase where
  header : Json
  parentHeader : Json
  metadata : Json
  /-- `m_content` -/
  stored : Json
  contentDeferred : Bool := false
  /-- The content's text as it was received, if it was kept. -/
  contentText : Option Bytes := none
  buffers : List Bytes

structure Message where
  identities : List Bytes
  base : MessageBase

structure PubMessage where
  topic : Bytes
  base : MessageBase

namespace MessageBase

def deferContent (m : MessageBase) (text : Bytes) : MessageBase :=
  { m with
    contentText := some text
    contentDeferred := true
    stored := .null }

/-- `parseDeferredContent`: a text that is no JSON is an error object. -/
def parseDeferredContent (k : Codec) (m : MessageBase) : Json :=
  match k.parse (m.contentText.getD []) with
  | .discarded =>
    .object [("error", .string "JSON parse error: the message's content is not JSON")]
  | v => v

/-- `content()` -/
def content (k : Codec) (m : MessageBase) : Json :=
  if m.contentDeferred then m.parseDeferredContent k else m.stored

end MessageBase

def delimiter : Bytes :=
  "<IDS|MSG>".toList.map fun c => c.toNat.toUInt8

/-- The frames before the first delimiter, and those after it. -/
def splitDelimiter : List Bytes → Option (List Bytes × List Bytes)
  | [] => none
  | frame :: wire =>
    if frame = delimiter then some ([], wire)
    else (splitDelimiter wire).map fun r => (frame :: r.1, r.2)

/-- The identities in front of a message. -/
def deserializeZmqId (wire : List Bytes) : Except Exception (List Bytes × List Bytes) :=
  match splitDelimiter wire with
  | none => .error (.runtime "ERROR: Delimiter not present in message")
  | some r => .ok r

/-- The topic is the first frame before the delimiter, and empty where there is none. -/
def deserializeTopic (wire : List Bytes) : Except Exception (Bytes × List Bytes) :=
  match splitDelimiter wire with
  | none => .error (.runtime "malformed message: no <IDS|MSG> delimiter")
  | some r => .ok (r.1.head?.getD [], r.2)

/-- Whether a content is kept as text. -/
def isDeferred (deferLargeContent : Bool) (content : Bytes) : Bool :=
  deferLargeContent && decide (kDeferredContentBytes ≤ content.length) && isOneLineOfUtf8 content

/-- The message in some frames, its content kept as text or parsed. -/
def readMessage (k : Codec) (deferLargeContent : Bool)
    (header parentHeader metadata content : Bytes) (buffers : List Bytes) : MessageBase :=
  let m : MessageBase := {
    header := k.parse header
    parentHeader := k.parse parentHeader
    metadata := k.parse metadata
    stored := k.parse content
    buffers }
  if isDeferred deferLargeContent content then m.deferContent content else m

def deserializeMessageBase (k : Codec) (deferLargeContent : Bool) (wire : List Bytes) :
    Except Exception MessageBase :=
  match wire with
  | signature :: header :: parentHeader :: metadata :: content :: buffers =>
    if k.verify signature header parentHeader metadata content = false then
      .error (.runtime "ERROR: Signatures don't match")
    else .ok (readMessage k deferLargeContent header parentHeader metadata content buffers)
  | _ => .error (.runtime (s!"malformed message: {wire.length} frames after the delimiter, 5 needed"))

def deserialize (k : Codec) (deferLargeContent : Bool) (wire : List Bytes) :
    Except Exception Message := do
  let (identities, wire) ← deserializeZmqId wire
  return { identities, base := ← deserializeMessageBase k deferLargeContent wire }

def deserializeIopub (k : Codec) (deferLargeContent : Bool) (wire : List Bytes) :
    Except Exception PubMessage := do
  let (topic, wire) ← deserializeTopic wire
  return { topic, base := ← deserializeMessageBase k deferLargeContent wire }

/-! ## One line of UTF-8 -/

/-- Some text, with no control character in it. -/
def IsOneLine (text : Option (List Char)) : Prop :=
  ∃ cs, text = some cs ∧ ∀ c ∈ cs, 0x20 ≤ c.toNat

theorem isOneLine_cons {c : Char} {text : Option (List Char)} :
    IsOneLine (text.map (c :: ·)) ↔ 0x20 ≤ c.toNat ∧ IsOneLine text := by
  cases text with
  | none => simp [IsOneLine]
  | some cs => simp [IsOneLine]

theorem toNat_ascii {b : UInt8} (hb : b < 0x80) : (Char.ofNat b.toNat).toNat = b.toNat := by
  have hlt : b.toNat < 0x80 := hb
  have hvalid : b.toNat.isValidChar := .inl (by omega)
  rw [Char.ofNat, dif_pos hvalid]
  rfl

theorem isOneLine_ascii {b : UInt8} (hb : b < 0x80) (bs : Bytes) :
    IsOneLine (Utf8.decode (b :: bs)) ↔ 0x20 ≤ b.toNat ∧ IsOneLine (Utf8.decode bs) := by
  have hchar : Utf8.decodeChar (b :: bs) = some (Char.ofNat b.toNat, bs) := by
    simp only [Utf8.decodeChar, hb, if_true]
  rw [Utf8.decode_cons hchar, isOneLine_cons, toNat_ascii hb]

theorem isOneLine_plain {plain : Bytes} (h : ∀ b ∈ plain, 0x20 ≤ b.toNat ∧ b.toNat < 0x80)
    (bs : Bytes) : IsOneLine (Utf8.decode (plain ++ bs)) ↔ IsOneLine (Utf8.decode bs) := by
  induction plain with
  | nil => rfl
  | cons b plain ih =>
    obtain ⟨hlow, hhigh⟩ := h b (List.mem_cons_self ..)
    rw [List.cons_append, isOneLine_ascii hhigh, ih fun b hb => h b (List.mem_cons_of_mem _ hb)]
    exact and_iff_right hlow

theorem isOneLine_skipPlain (bs : Bytes) :
    IsOneLine (Utf8.decode (skipPlain bs)) ↔ IsOneLine (Utf8.decode bs) := by
  induction bs using skipPlain.induct with
  | case1 bs h ih =>
    have hplain := (Utf8.plainEight_iff (by rw [List.length_take]; omega)).1 h.2
    rw [skipPlain, if_pos h, ih, ← isOneLine_plain hplain, List.take_append_drop]
  | case2 bs h => rw [skipPlain, if_neg h]

theorem isOneLineOfUtf8_cons {bs rest : Bytes} {c : UInt8} (h : skipPlain bs = c :: rest) :
    isOneLineOfUtf8 bs =
      if c < 0x20 then false
      else if c < 0x80 then isOneLineOfUtf8 rest
      else match Utf8.decodeMany c rest with
        | none => false
        | some r => isOneLineOfUtf8 r.2 := by
  rw [isOneLineOfUtf8]
  split
  · next h' => simp [h] at h'
  · next c' rest' h' =>
    obtain ⟨rfl, rfl⟩ := List.cons.inj (h.symm.trans h')
    congr 2
    split
    · next hnone => rw [hnone]
    · next hsome => rw [hsome]

/-- **The check reads what it says**: eight bytes at a time or one by one, it passes the texts of
one line. -/
theorem isOneLineOfUtf8_iff (bs : Bytes) :
    isOneLineOfUtf8 bs = true ↔ IsOneLine (Utf8.decode bs) := by
  rw [← isOneLine_skipPlain]
  induction bs using isOneLineOfUtf8.induct with
  | case1 bs hskip =>
    rw [hskip, Utf8.decode_nil, isOneLineOfUtf8]
    split <;> simp_all [IsOneLine]
  | case2 bs c rest hskip hcontrol =>
    have hnot : ¬ 0x20 ≤ c.toNat := Nat.not_le_of_lt hcontrol
    have hascii : c < 0x80 := Nat.lt_trans hcontrol (by decide : (0x20 : UInt8).toNat < 0x80)
    rw [hskip, isOneLine_ascii hascii, isOneLineOfUtf8_cons hskip, if_pos hcontrol]
    simp [hnot]
  | case3 bs c rest hskip hcontrol hascii ih =>
    have hlow : 0x20 ≤ c.toNat := Nat.not_lt.1 hcontrol
    rw [hskip, isOneLine_ascii hascii, ← isOneLine_skipPlain, ← ih, isOneLineOfUtf8_cons hskip,
      if_neg hcontrol, if_pos hascii]
    exact (and_iff_right hlow).symm
  | case4 bs c rest hskip hcontrol hascii hnone =>
    have hchar : Utf8.decodeChar (c :: rest) = none := by
      simp only [Utf8.decodeChar, hascii, if_false, hnone]
    have hdecode : Utf8.decode (c :: rest) = none := by
      rw [Utf8.decode, if_neg (by simp)]
      split <;> simp_all
    rw [hskip, hdecode, isOneLineOfUtf8_cons hskip, if_neg hcontrol, if_neg hascii, hnone]
    simp [IsOneLine]
  | case5 bs c rest hskip hcontrol hascii ch rest' hsome ih =>
    have hchar : Utf8.decodeChar (c :: rest) = some (ch, rest') := by
      simp only [Utf8.decodeChar, hascii, if_false, hsome]
    have hlow : 0x20 ≤ ch.toNat := Nat.le_trans (by decide) (Utf8.decodeMany_not_ascii hsome)
    rw [hskip, Utf8.decode_cons hchar, isOneLine_cons, ← isOneLine_skipPlain, ← ih,
      isOneLineOfUtf8_cons hskip, if_neg hcontrol, if_neg hascii, hsome]
    exact (and_iff_right hlow).symm

/-! ## What is read -/

/-- Behind their delimiter the frames are a message with a good signature. -/
def Signed (k : Codec) (wire before : List Bytes)
    (header parentHeader metadata content : Bytes) (buffers : List Bytes) : Prop :=
  ∃ signature,
    splitDelimiter wire =
      some (before, signature :: header :: parentHeader :: metadata :: content :: buffers) ∧
    k.verify signature header parentHeader metadata content = true

section ReadMessage

variable (k : Codec) (d : Bool) (header parentHeader metadata content : Bytes)
  (buffers : List Bytes)

@[simp] theorem readMessage_header :
    (readMessage k d header parentHeader metadata content buffers).header = k.parse header := by
  unfold readMessage
  split <;> rfl

@[simp] theorem readMessage_parentHeader :
    (readMessage k d header parentHeader metadata content buffers).parentHeader =
      k.parse parentHeader := by
  unfold readMessage
  split <;> rfl

@[simp] theorem readMessage_contentText :
    (readMessage k d header parentHeader metadata content buffers).contentText =
      if isDeferred d content then some content else none := by
  unfold readMessage
  split <;> rfl

end ReadMessage

/-- **Which frames are read, and as what**: five or more, with a good signature. -/
theorem deserializeMessageBase_ok_iff {k : Codec} {d : Bool} {wire : List Bytes}
    {m : MessageBase} :
    deserializeMessageBase k d wire = .ok m ↔
      ∃ signature header parentHeader metadata content buffers,
        wire = signature :: header :: parentHeader :: metadata :: content :: buffers ∧
        k.verify signature header parentHeader metadata content = true ∧
        m = readMessage k d header parentHeader metadata content buffers := by
  unfold deserializeMessageBase
  constructor
  · intro h
    split at h
    · next signature header parentHeader metadata content buffers =>
      split at h
      · cases h
      · next hverify =>
        exact ⟨signature, header, parentHeader, metadata, content, buffers, rfl,
          by simpa using hverify, (Except.ok.inj h).symm⟩
    · cases h
  · rintro ⟨signature, header, parentHeader, metadata, content, buffers, rfl, hverify, rfl⟩
    simp only [hverify, Bool.true_eq_false, if_false]

/-- Behind the delimiter, what is read is a message with a good signature. -/
theorem deserializeMessageBase_signed {k : Codec} {d : Bool} {wire before rest : List Bytes}
    {m : MessageBase} (hsplit : splitDelimiter wire = some (before, rest)) :
    deserializeMessageBase k d rest = .ok m ↔
      ∃ header parentHeader metadata content buffers,
        Signed k wire before header parentHeader metadata content buffers ∧
        m = readMessage k d header parentHeader metadata content buffers := by
  rw [deserializeMessageBase_ok_iff]
  constructor
  · rintro ⟨signature, header, parentHeader, metadata, content, buffers, rfl, hverify, hm⟩
    exact ⟨header, parentHeader, metadata, content, buffers, ⟨signature, hsplit, hverify⟩, hm⟩
  · rintro ⟨header, parentHeader, metadata, content, buffers, ⟨signature, hwire, hverify⟩, hm⟩
    obtain ⟨-, rfl⟩ := Prod.mk.inj (Option.some.inj (hsplit.symm.trans hwire))
    exact ⟨signature, header, parentHeader, metadata, content, buffers, rfl, hverify, hm⟩

theorem Signed.before_eq {k : Codec} {wire before before' rest : List Bytes}
    {header parentHeader metadata content : Bytes} {buffers : List Bytes}
    (h : Signed k wire before header parentHeader metadata content buffers)
    (hsplit : splitDelimiter wire = some (before', rest)) : before = before' := by
  obtain ⟨_, hwire, -⟩ := h
  exact (Prod.mk.inj (Option.some.inj (hwire.symm.trans hsplit))).1

theorem deserialize_ok_iff {k : Codec} {d : Bool} {wire : List Bytes} {msg : Message} :
    deserialize k d wire = .ok msg ↔
      ∃ header parentHeader metadata content buffers,
        Signed k wire msg.identities header parentHeader metadata content buffers ∧
        msg.base = readMessage k d header parentHeader metadata content buffers := by
  unfold deserialize deserializeZmqId
  cases hsplit : splitDelimiter wire with
  | none => simp [Signed, hsplit]
  | some r =>
    obtain ⟨before, rest⟩ := r
    constructor
    · intro h
      cases hbase : deserializeMessageBase k d rest with
      | error e => simp [hbase] at h
      | ok base =>
        obtain rfl : { identities := before, base } = msg := by
          simpa [hbase, pure, Except.pure] using h
        exact (deserializeMessageBase_signed hsplit).mp hbase
    · rintro ⟨header, parentHeader, metadata, content, buffers, hsigned, hm⟩
      obtain rfl := hsigned.before_eq hsplit
      have hbase := (deserializeMessageBase_signed hsplit).mpr ⟨_, _, _, _, _, hsigned, hm⟩
      simp [hbase, pure, Except.pure]

theorem deserializeIopub_ok_iff {k : Codec} {d : Bool} {wire : List Bytes} {msg : PubMessage} :
    deserializeIopub k d wire = .ok msg ↔
      ∃ before header parentHeader metadata content buffers,
        Signed k wire before header parentHeader metadata content buffers ∧
        msg.topic = before.head?.getD [] ∧
        msg.base = readMessage k d header parentHeader metadata content buffers := by
  unfold deserializeIopub deserializeTopic
  cases hsplit : splitDelimiter wire with
  | none => simp [Signed, hsplit]
  | some r =>
    obtain ⟨before, rest⟩ := r
    constructor
    · intro h
      cases hbase : deserializeMessageBase k d rest with
      | error e => simp [hbase] at h
      | ok base =>
        obtain rfl : { topic := before.head?.getD [], base } = msg := by
          simpa [hbase, pure, Except.pure] using h
        obtain ⟨header, parentHeader, metadata, content, buffers, hsigned, hm⟩ :=
          (deserializeMessageBase_signed hsplit).mp hbase
        exact ⟨before, header, parentHeader, metadata, content, buffers, hsigned, rfl, hm⟩
    · rintro ⟨before', header, parentHeader, metadata, content, buffers, hsigned, htopic, hm⟩
      obtain rfl := hsigned.before_eq hsplit
      have hbase := (deserializeMessageBase_signed hsplit).mpr ⟨_, _, _, _, _, hsigned, hm⟩
      simp [hbase, pure, Except.pure, ← htopic]

end Jovian.Wire
