import Jovian.Wire.Authentication

/-!
# Jovian — what is written is read again (`serialize`, `deserialize`)

A message is written as its identities, or its topic, the delimiter, the signature, four frames of
JSON text and its buffers. Reading it with the same key gives it back, with its content parsed or
kept as text.

* **`wire_round_trip`** — for messages, for publications, and for publications behind any number of
  frames.
-/

namespace Jovian.Wire

open Utf8 (Bytes)

/-! ## Writing -/

/-- `json::dump`, which throws where a string is no UTF-8, and `json::parse`, which gives back what
was written. -/
structure JsonText where
  dump : Json → Except Json.Error Bytes
  parse : Bytes → Json
  parse_dump : ∀ v text, v ≠ .discarded → dump v = .ok text → parse text = v

/-- A JSON value that can be written. -/
def JsonText.Valid (j : JsonText) (v : Json) : Prop := v ≠ .discarded ∧ ∃ text, j.dump v = .ok text

/-- The writer's and the reader's side of a connection: both have the key. -/
structure Connection where
  json : JsonText
  auth : OpensslAuthentication
  behind : Nat → UInt8

namespace Connection

def codec (k : Connection) : Codec := k.auth.codec k.json.parse k.behind

def serializeMessageBase (k : Connection) (m : MessageBase) : Except Json.Error (List Bytes) := do
  let header ← k.json.dump m.header
  let parentHeader ← k.json.dump m.parentHeader
  let metadata ← k.json.dump m.metadata
  let content ← k.json.dump (m.content k.codec)
  return k.auth.sign [header, parentHeader, metadata, content] :: header :: parentHeader ::
    metadata :: content :: m.buffers

def serializeZmqId (ids : List Bytes) : List Bytes := ids ++ [delimiter]

def serialize (k : Connection) (m : Message) : Except Json.Error (List Bytes) := do
  let base ← k.serializeMessageBase m.base
  return serializeZmqId m.identities ++ base

def serializeTopic (topic : Bytes) : List Bytes := [topic, delimiter]

def serializeIopub (k : Connection) (p : PubMessage) : Except Json.Error (List Bytes) := do
  let base ← k.serializeMessageBase p.base
  return serializeTopic p.topic ++ base

end Connection

/-! ## The same message -/

/-- A message all of whose JSON can be written. -/
structure Valid (k : Connection) (m : MessageBase) : Prop where
  header : k.json.Valid m.header
  parentHeader : k.json.Valid m.parentHeader
  metadata : k.json.Valid m.metadata
  content : k.json.Valid (m.content k.codec)

/-- The same JSON and the same buffers, whether or not the content is kept as text. -/
structure Same (k : Connection) (m m' : MessageBase) : Prop where
  header : m'.header = m.header
  parentHeader : m'.parentHeader = m.parentHeader
  metadata : m'.metadata = m.metadata
  content : m'.content k.codec = m.content k.codec
  buffers : m'.buffers = m.buffers

/-! ## Reading -/

theorem splitDelimiter_append {before : List Bytes} (h : ∀ frame ∈ before, frame ≠ delimiter)
    (wire : List Bytes) : splitDelimiter (before ++ delimiter :: wire) = some (before, wire) := by
  induction before with
  | nil => rw [List.nil_append, splitDelimiter, if_pos rfl]
  | cons frame before ih =>
    rw [List.cons_append, splitDelimiter, if_neg (h frame List.mem_cons_self),
      ih fun frame hmem => h frame (List.mem_cons_of_mem _ hmem)]
    rfl

section ReadMessage

variable {k : Codec} {d : Bool} {header parentHeader metadata content : Bytes}
  {buffers : List Bytes}

theorem readMessage_metadata :
    (readMessage k d header parentHeader metadata content buffers).metadata = k.parse metadata := by
  unfold readMessage
  split <;> rfl

theorem readMessage_buffers :
    (readMessage k d header parentHeader metadata content buffers).buffers = buffers := by
  unfold readMessage
  split <;> rfl

/-- A content is the same whether it is parsed at once or when it is asked for. -/
theorem readMessage_content (h : k.parse content ≠ .discarded) :
    (readMessage k d header parentHeader metadata content buffers).content k = k.parse content := by
  unfold readMessage
  split
  · show MessageBase.parseDeferredContent k _ = _
    unfold MessageBase.parseDeferredContent
    split
    · next hdiscarded => exact absurd hdiscarded h
    · rfl
  · rfl

end ReadMessage

section RoundTrip

variable {k : Connection} {d : Bool}

theorem deserializeMessageBase_serialize {m : MessageBase} (hm : Valid k m) :
    ∃ frames m', k.serializeMessageBase m = .ok frames ∧
      deserializeMessageBase k.codec d frames = .ok m' ∧ Same k m m' := by
  obtain ⟨⟨hheader, header, hheader'⟩, ⟨hparent, parentHeader, hparent'⟩,
    ⟨hmetadata, metadata, hmetadata'⟩, ⟨hcontent, content, hcontent'⟩⟩ := hm
  have hparse {v : Json} {text : Bytes} (hv : v ≠ .discarded) (htext : k.json.dump v = .ok text) :
      k.codec.parse text = v := k.json.parse_dump v text hv htext
  refine ⟨_, readMessage k.codec d header parentHeader metadata content m.buffers, ?_,
    deserializeMessageBase_ok_iff.mpr ⟨_, header, parentHeader, metadata, content, m.buffers, rfl,
      verifyImpl_sign, rfl⟩, ?_⟩
  · rw [Connection.serializeMessageBase, hheader', ok_bind, hparent', ok_bind, hmetadata', ok_bind,
      hcontent', ok_bind]
    rfl
  · refine ⟨?_, ?_, ?_, ?_, readMessage_buffers⟩
    · rw [readMessage_header, hparse hheader hheader']
    · rw [readMessage_parentHeader, hparse hparent hparent']
    · rw [readMessage_metadata, hparse hmetadata hmetadata']
    · rw [readMessage_content (by rw [hparse hcontent hcontent']; exact hcontent),
        hparse hcontent hcontent']

theorem deserialize_serialize {m : Message} (hids : ∀ id ∈ m.identities, id ≠ delimiter)
    (hm : Valid k m.base) :
    ∃ wire m', k.serialize m = .ok wire ∧ deserialize k.codec d wire = .ok m' ∧
      m'.identities = m.identities ∧ Same k m.base m'.base := by
  obtain ⟨frames, base, hframes, hbase, hsame⟩ := deserializeMessageBase_serialize (d := d) hm
  refine ⟨m.identities ++ delimiter :: frames, ⟨m.identities, base⟩, ?_, ?_, rfl, hsame⟩
  · rw [Connection.serialize, hframes, ok_bind, Connection.serializeZmqId, List.append_assoc]
    rfl
  · simp only [deserialize, deserializeZmqId, splitDelimiter_append hids, ok_bind, hbase]
    rfl

/-- A publication is read behind any number of frames; the first is its topic. -/
theorem deserializeIopub_behind {p : PubMessage} {before : List Bytes}
    (hbefore : ∀ frame ∈ before, frame ≠ delimiter) (hp : Valid k p.base) :
    ∃ frames p', k.serializeMessageBase p.base = .ok frames ∧
      deserializeIopub k.codec d (before ++ delimiter :: frames) = .ok p' ∧
      p'.topic = before.head?.getD [] ∧ Same k p.base p'.base := by
  obtain ⟨frames, base, hframes, hbase, hsame⟩ := deserializeMessageBase_serialize (d := d) hp
  refine ⟨frames, ⟨before.head?.getD [], base⟩, hframes, ?_, rfl, hsame⟩
  simp only [deserializeIopub, deserializeTopic, splitDelimiter_append hbefore, ok_bind, hbase]
  rfl

theorem deserializeIopub_serializeIopub {p : PubMessage} (htopic : p.topic ≠ delimiter)
    (hp : Valid k p.base) :
    ∃ wire p', k.serializeIopub p = .ok wire ∧ deserializeIopub k.codec d wire = .ok p' ∧
      p'.topic = p.topic ∧ Same k p.base p'.base := by
  obtain ⟨frames, p', hframes, hp', htopic', hsame⟩ :=
    @deserializeIopub_behind _ d _ [p.topic] (by simpa using htopic) hp
  refine ⟨p.topic :: delimiter :: frames, p', ?_, hp', htopic', hsame⟩
  rw [Connection.serializeIopub, hframes]
  rfl

end RoundTrip

/-- **What is written is read again.** A message whose identities are not the delimiter, and a
publication whose topic is not, are read as they were, with their content parsed or kept as text;
and a publication is read behind any number of frames. -/
theorem wire_round_trip (k : Connection) (d : Bool) :
    (∀ m : Message, (∀ id ∈ m.identities, id ≠ delimiter) → Valid k m.base →
      ∃ wire m', k.serialize m = .ok wire ∧ deserialize k.codec d wire = .ok m' ∧
        m'.identities = m.identities ∧ Same k m.base m'.base) ∧
    (∀ p : PubMessage, p.topic ≠ delimiter → Valid k p.base →
      ∃ wire p', k.serializeIopub p = .ok wire ∧ deserializeIopub k.codec d wire = .ok p' ∧
        p'.topic = p.topic ∧ Same k p.base p'.base) ∧
    ∀ (p : PubMessage) (before : List Bytes), (∀ frame ∈ before, frame ≠ delimiter) →
      Valid k p.base →
      ∃ frames p', k.serializeMessageBase p.base = .ok frames ∧
        deserializeIopub k.codec d (before ++ delimiter :: frames) = .ok p' ∧
        p'.topic = before.head?.getD [] ∧ Same k p.base p'.base :=
  ⟨fun _ => deserialize_serialize, fun _ => deserializeIopub_serializeIopub,
    fun _ _ => deserializeIopub_behind⟩

/-! ## A message of empty objects -/

/-- Empty objects, written as they are. -/
def emptyObjects : JsonText where
  dump
    | .object [] => .ok [0x7b, 0x7d]
    | _ => .error .invalidUtf8
  parse text := if text = [0x7b, 0x7d] then .object [] else .discarded
  parse_dump v text _ h := by
    split at h
    · cases h
      rfl
    · cases h

def emptyConnection : Connection := ⟨emptyObjects, checksum, fun _ => 0⟩

/-- It has an identity, and two buffers of which one is empty. -/
def emptyMessage : Message :=
  ⟨[[1]], { header := .object [], parentHeader := .object [], metadata := .object []
            stored := .object [], buffers := [[], [7]] }⟩

theorem wire_round_trip_empty : ∃ wire m', emptyConnection.serialize emptyMessage = .ok wire ∧
    deserialize emptyConnection.codec true wire = .ok m' ∧ m'.identities = [[1]] ∧
    Same emptyConnection emptyMessage.base m'.base := by
  have hvalid : emptyConnection.json.Valid (.object []) := ⟨by simp, _, rfl⟩
  exact (wire_round_trip emptyConnection true).1 emptyMessage (by decide)
    ⟨hvalid, hvalid, hvalid, hvalid⟩

end Jovian.Wire
