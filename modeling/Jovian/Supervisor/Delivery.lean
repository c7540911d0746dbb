import Jovian.Supervisor.DeferredContent
import Jovian.Supervisor.Outbox
import Jovian.Wire.OneLine
import Jovian.Wire.RoundTrip
import Mathlib.Data.List.Forall2

/-!
# Jovian — from the kernel's socket to the client's session

What a kernel writes is signed, read and checked by the supervisor, made a frame of, queued in the
client's `Outbox` and joined with other frames; the client splits a WebSocket message into lines and
hands each to `Session.handleFrame`, which has `MessageParser.parse` read a message. Here these parts are
put together, with the supervisor's own frames in between.

* **`delivers`** — what a client gets are the messages as the kernel wrote them, in order; all of them
  once the sender has ended without being abandoned.
-/

namespace Jovian.Delivery

open Utf8 (Bytes)
open Relay (Channel)
open Supervisor (envelope frameText)

/-! ## The kernel's side -/

def utf8 (text : List Char) : Bytes :=
  text.flatMap String.utf8EncodeChar

/-- What a kernel and the supervisor share: the key; and the numbers that `json::parse` can hold. -/
structure Link where
  auth : Wire.OpensslAuthentication
  /-- What is in memory behind a signature. -/
  behind : Nat → UInt8
  inRange : String → Bool

namespace Link

/-- `json::parse`, told not to throw -/
def parse (k : Link) (bytes : Bytes) : Json :=
  ((Utf8.decode bytes).map (Json.parse k.inRange)).getD .discarded

def codec (k : Link) : Wire.Codec :=
  k.auth.codec k.parse k.behind

/-- A value that `dump()` can write and `json::parse` can hold. -/
structure Holds (k : Link) (v : Json) : Prop where
  canonical : v.Canonical
  inRange : ∀ s, Json.Token.number s ∈ Json.tokens v → k.inRange s = true

end Link

/-- A message of a kernel's. -/
structure KernelMessage where
  channel : Channel
  /-- The identities, or the topic. -/
  before : List Bytes
  header : Json
  parentHeader : Json
  metadata : Json
  content : Json
  buffers : List Bytes

namespace KernelMessage

/-- `ZmqSerializer::serialize`, `serializeIopub` -/
def wire (k : Link) (m : KernelMessage) : List Bytes :=
  let frames := [m.header, m.parentHeader, m.metadata, m.content].map fun v => utf8 (Json.dump v)
  m.before ++ Wire.delimiter :: k.auth.sign frames :: (frames ++ m.buffers)

/-- A message as kernels write them. -/
structure Valid (k : Link) (m : KernelMessage) : Prop where
  before : ∀ frame ∈ m.before, frame ≠ Wire.delimiter
  header : k.Holds m.header
  parentHeader : k.Holds m.parentHeader
  metadata : k.Holds m.metadata
  content : k.Holds m.content
  typed : Supervisor.Reads m.header "msg_type"
  parent : Supervisor.Reads m.parentHeader "msg_id"
  topic : m.channel = .iopub → (Utf8.decode (m.before.head?.getD [])).isSome = true

def msgType (m : KernelMessage) : String :=
  ((m.header.get? "msg_type").bind Json.string?).getD ""

def parentMsgId (m : KernelMessage) : String :=
  ((m.parentHeader.get? "msg_id").bind Json.string?).getD ""

/-- The topic of output is its own; a reply's is its type. -/
def topic (m : KernelMessage) : String :=
  if m.channel = .iopub then String.ofList ((Utf8.decode (m.before.head?.getD [])).getD [])
  else m.msgType

end KernelMessage

/-! ## The supervisor's side -/

/-- What the supervisor pushes to a client. -/
inductive Item where
  | ready
  | message (m : KernelMessage)
  | kernelExit (reason : String)
  | requestError (id error : String)
  /-- Of a kernel that it interrupts itself. -/
  | interruptReply (id : String) (interrupted : Bool)

namespace Item

def Valid (k : Link) : Item → Prop
  | .message m => m.Valid k
  | _ => True

/-- The content of an `interrupt_reply`. -/
def interruptContent (interrupted : Bool) : Json :=
  if interrupted then .object [("status", .string "ok")]
  else .object [("ename", .string "InterruptFailed"),
    ("evalue", .string "the kernel process could not be interrupted"), ("status", .string "error")]

/-- The members of the supervisor's own frames, as `dump()` orders them. -/
def members : Item → List (String × Json)
  | .ready => [("type", .string "ready")]
  | .kernelExit reason => [("reason", .string reason), ("type", .string "kernelExit")]
  | .requestError id error =>
    [("error", .string error), ("id", .string id), ("type", .string "requestError")]
  | .interruptReply id interrupted =>
    Json.setMember "content" (interruptContent interrupted)
      (envelope "control" "interrupt_reply" "interrupt_reply" id)
  | .message _ => []

/-- What is pushed for an item; none where the poll loop drops it. -/
def frame (k : Link) : Item → Except Wire.Exception (Option (List Char))
  | .message m => do
    let relayed ← Supervisor.drain k.codec m.channel (m.wire k)
    return relayed.map Supervisor.Relayed.frame
  | item => return some (Json.dump (.object item.members))

end Item

/-! ## The client's side -/

/-- A message at the client; `none` is JavaScript's `undefined`. -/
structure JupyterMessage where
  topic : Option Json
  msgType : String
  channel : Option Json
  parentMsgId : Json
  content : Option Json
  raw : List Char

inductive ParseError where
  | notJson
  | invalidFormat (raw : List Char)
deriving DecidableEq, Repr

/-- `MessageParser.parse` -/
def parse (raw : List Char) : Except ParseError JupyterMessage :=
  match Json.read .strict raw with
  | none => .error .notJson
  | some envelope =>
    match envelope.get? "msg_type" with
    | some (.string msgType) =>
      .ok {
        topic := envelope.get? "topic"
        msgType
        channel := envelope.get? "channel"
        -- `envelope.parent_msg_id ?? ''`
        parentMsgId := match envelope.get? "parent_msg_id" with
          | none | some .null => .string ""
          | some id => id
        content := envelope.get? "content"
        raw }
    | _ => .error (.invalidFormat raw)

/-- What `handleFrame` makes of a line. -/
inductive Received where
  | ready
  | message (m : JupyterMessage)
  /-- The session's `error` event. -/
  | failed (e : ParseError)
  | log (frame : Json)
  | kernelExit (reason : String)
  | requestError (id error : String)
  /-- No JSON, or of no known type. -/
  | ignored
  /-- `null` has no `type`: a rejection that nobody waits for. -/
  | thrown

def stringOr (default : String) (j : Option Json) : String :=
  (j.bind Json.string?).getD default

/-- `Session.handleFrame`, without middleware -/
def handleFrame (text : List Char) : Received :=
  match Json.read .strict text with
  | none => .ignored
  | some .null => .thrown
  | some frame =>
    let type := (frame.get? "type").bind Json.string?
    if type = some "ready" then .ready
    else if type = some "message" then
      match parse text with
      | .ok m => .message m
      | .error e => .failed e
    else if type = some "log" then .log frame
    else if type = some "kernelExit" then
      .kernelExit (stringOr "unknown reason" (frame.get? "reason"))
    else if type = some "requestError" then
      .requestError (stringOr "" (frame.get? "id"))
        (stringOr "request rejected by the supervisor" (frame.get? "error"))
    else .ignored

/-- A WebSocket message at the client: its lines, but for empty ones. One that is not UTF-8 fails the
connection. -/
def received (frame : Outbox.Text) : List Received :=
  match Utf8.decode frame with
  | none => []
  | some text => ((text.splitOn '\n').filter (· ≠ [])).map handleFrame

/-! ## What is promised -/

/-- A message as its kernel wrote it, at the client. -/
def KernelMessage.asReceived (m : KernelMessage) (raw : List Char) : JupyterMessage where
  topic := some (.string m.topic)
  msgType := m.msgType
  channel := some (.string m.channel.name)
  parentMsgId := .string m.parentMsgId
  content := some m.content
  raw

/-- The client gets an item as what it is. -/
def Item.Got : Item → Received → Prop
  | .ready, r => r = .ready
  | .message m, r => ∃ raw, r = .message (m.asReceived raw)
  | .kernelExit reason, r => r = .kernelExit reason
  | .requestError id error, r => r = .requestError id error
  | .interruptReply id interrupted, r => ∃ raw, r = .message {
      topic := some (.string "interrupt_reply")
      msgType := "interrupt_reply"
      channel := some (.string "control")
      parentMsgId := .string id
      content := some (interruptContent interrupted)
      raw }

/-- The outbox's text of an item. -/
def Item.Pushes (k : Link) (item : Item) (m : Outbox.Message) : Prop :=
  ∃ text, item.frame k = .ok (some text) ∧ m.text = utf8 text

/-! ## UTF-8 -/

theorem decode_utf8 (text : List Char) : Utf8.decode (utf8 text) = some text :=
  Utf8.decode_eq_some_iff.2 rfl

theorem utf8_append (a b : List Char) : utf8 (a ++ b) = utf8 a ++ utf8 b :=
  List.flatMap_append

theorem utf8_newline : utf8 ['\n'] = [Outbox.newline] := by
  show String.utf8EncodeChar '\n' ++ [] = _
  rw [Utf8.utf8EncodeChar_ascii (by decide)]
  rfl

theorem utf8_inj {a b : List Char} (h : utf8 a = utf8 b) : a = b := by
  have hdecode := congrArg Utf8.decode h
  rw [decode_utf8, decode_utf8] at hdecode
  exact Option.some.inj hdecode

/-- A line of text is a line of bytes. -/
theorem newline_not_mem {text : List Char} (h : ∀ c ∈ text, 0x20 ≤ c.toNat) :
    Outbox.newline ∉ utf8 text := by
  intro hmem
  have hbytes := (Wire.chars_iff_bytes text).1 h _ hmem
  exact absurd hbytes (by decide)

theorem utf8_intercalate (lines : List (List Char)) :
    utf8 (['\n'].intercalate lines) = [Outbox.newline].intercalate (lines.map utf8) := by
  induction lines with
  | nil => rfl
  | cons line lines ih =>
    cases lines with
    | nil => simp
    | cons line' lines =>
      have hmore : (line' :: lines).map utf8 ≠ [] := List.cons_ne_nil _ _
      show _ = [Outbox.newline].intercalate (utf8 line :: (line' :: lines).map utf8)
      rw [List.intercalate_cons_of_ne_nil (List.cons_ne_nil _ _), utf8_append, utf8_append, utf8_newline, ih,
        List.intercalate_cons_of_ne_nil hmore]

/-- The client splits a frame as the sender joined it. -/
theorem received_lines {frame : Outbox.Text} {lines : List (List Char)}
    (hlines : Outbox.lines frame = lines.map utf8) (hplain : ∀ line ∈ lines, ∀ c ∈ line, 0x20 ≤ c.toNat)
    (hne : ∀ line ∈ lines, line ≠ []) : received frame = lines.map handleFrame := by
  have hframe : frame = utf8 (['\n'].intercalate lines) := by
    rw [utf8_intercalate, ← hlines]
    exact (List.intercalate_splitOn Outbox.newline).symm
  have hsome : lines ≠ [] := by
    rintro rfl
    exact List.splitOn_ne_nil _ _ hlines
  have hnewline : ∀ line ∈ lines, '\n' ∉ line := by
    intro line hline hmem
    have hlow := hplain line hline _ hmem
    exact absurd hlow (by decide)
  have hsplit : (['\n'].intercalate lines).splitOn '\n' = lines :=
    List.splitOn_intercalate '\n' hnewline hsome
  have hall : lines.filter (· ≠ []) = lines :=
    List.filter_eq_self.2 fun line hline => by simpa using hne line hline
  rw [hframe, received, decode_utf8]
  dsimp only
  rw [hsplit, hall]

/-! ## The supervisor's frame -/

theorem valueString_eq {j : Json} {key : String} (h : Supervisor.Reads j key) :
    j.valueString key "" = .ok (((j.get? key).bind Json.string?).getD "") := by
  obtain ⟨hobject, hstring⟩ := h
  cases hget : j.get? key with
  | none =>
    cases j with
    | object members => simp only [Json.valueString, Json.value_missing hget, Option.bind_none, Option.getD_none]
    | _ => exact absurd hobject Bool.false_ne_true
  | some v =>
    obtain ⟨s, hs⟩ := Option.isSome_iff_exists.mp (hstring v hget)
    cases v with
    | string s => exact Json.valueString_of_get "" hobject hget
    | _ => exact absurd hs.symm (Option.some_ne_none s)

section Message

variable {k : Link} {m : KernelMessage}

theorem Link.Holds.parse_dump {v : Json} (h : k.Holds v) : k.parse (utf8 (Json.dump v)) = v := by
  rw [Link.parse, decode_utf8]
  exact Json.parse_of_read (Json.lex_dump h.canonical) (Json.parseTokens_tokens h.canonical) h.inRange

/-- A message as the supervisor reads it. -/
def KernelMessage.base (k : Link) (m : KernelMessage) : Wire.MessageBase :=
  Wire.readMessage k.codec true (utf8 (Json.dump m.header)) (utf8 (Json.dump m.parentHeader))
    (utf8 (Json.dump m.metadata)) (utf8 (Json.dump m.content)) m.buffers

/-- The frame that the poll loop makes of a message. -/
def KernelMessage.frame (k : Link) (m : KernelMessage) : List Char :=
  frameText k.codec (envelope m.channel.name m.topic m.msgType m.parentMsgId) (m.base k)

namespace KernelMessage.Valid

theorem signed (h : m.Valid k) : Wire.Signed k.codec (m.wire k) m.before (utf8 (Json.dump m.header))
    (utf8 (Json.dump m.parentHeader)) (utf8 (Json.dump m.metadata)) (utf8 (Json.dump m.content)) m.buffers :=
  ⟨_, Wire.splitDelimiter_append h.before _, Wire.verifyImpl_sign⟩

theorem base_header (h : m.Valid k) : (m.base k).header = m.header :=
  (Wire.readMessage_header ..).trans h.header.parse_dump

theorem base_parentHeader (h : m.Valid k) : (m.base k).parentHeader = m.parentHeader :=
  (Wire.readMessage_parentHeader ..).trans h.parentHeader.parse_dump

theorem frameFor_eq (h : m.Valid k) {topic : String} (htopic : topic = m.topic) :
    Supervisor.frameFor k.codec m.channel.name (.ok topic) (m.base k) = .ok (m.frame k) := by
  rw [Supervisor.frameFor_eq, h.base_header, h.base_parentHeader, valueString_eq h.typed, valueString_eq h.parent,
    htopic]
  rfl

theorem drainIopub_eq (h : m.Valid k) (hch : m.channel = .iopub) :
    Supervisor.drainIopub k.codec (m.wire k) = .ok (some ⟨m.frame k, false⟩) := by
  have hread : Wire.deserializeIopub k.codec true (m.wire k) =
      .ok { topic := m.before.head?.getD [], base := m.base k } :=
    Wire.deserializeIopub_ok_iff.2 ⟨_, _, _, _, _, _, h.signed, rfl, rfl⟩
  have hqueued := Supervisor.queued_eq_some.2 ⟨hread, by rw [h.base_header]; exact h.typed⟩
  obtain ⟨topic, htopic⟩ := Option.isSome_iff_exists.mp (h.topic hch)
  have htext : Supervisor.textOf (m.before.head?.getD []) = .ok m.topic := by
    rw [Supervisor.textOf, htopic, KernelMessage.topic, if_pos hch, htopic]
    rfl
  have hframe := h.frameFor_eq rfl
  rw [hch] at hframe
  rw [Supervisor.drainIopub, hqueued]
  dsimp only
  rw [htext, hframe]

/-- A reply is framed under its type. -/
theorem drainReply_eq (h : m.Valid k) (hch : m.channel ≠ .iopub) :
    Supervisor.drainReply k.codec m.channel (m.wire k) =
      .ok (some ⟨m.frame k, m.msgType = "shutdown_reply"⟩) := by
  have hread : Wire.deserialize k.codec true (m.wire k) =
      .ok { identities := m.before, base := m.base k } :=
    Wire.deserialize_ok_iff.2 ⟨_, _, _, _, _, h.signed, rfl⟩
  have htopic : m.msgType = m.topic := (if_neg hch).symm
  have hrelay : Supervisor.relay k.codec m.channel.name ⟨m.before, m.base k⟩ =
      .ok ⟨m.frame k, m.msgType = "shutdown_reply"⟩ := by
    rw [Supervisor.relay, h.base_header, valueString_eq h.typed]
    show (Supervisor.frameFor k.codec m.channel.name (.ok m.msgType) (m.base k) >>= _) = _
    rw [h.frameFor_eq htopic]
    rfl
  rw [Supervisor.drainReply, hread]
  dsimp only
  rw [hrelay]

theorem drain_eq (h : m.Valid k) :
    ∃ relayed, Supervisor.drain k.codec m.channel (m.wire k) = .ok (some relayed) ∧ relayed.frame = m.frame k := by
  by_cases hch : m.channel = .iopub
  · refine ⟨⟨m.frame k, false⟩, ?_, rfl⟩
    rw [Supervisor.drain, if_pos hch]
    exact h.drainIopub_eq hch
  · refine ⟨⟨m.frame k, m.msgType = "shutdown_reply"⟩, ?_, rfl⟩
    rw [Supervisor.drain, if_neg hch]
    exact h.drainReply_eq hch

/-- A client reads the envelope with the content, whether that was parsed or kept as text. -/
theorem read_frame (h : m.Valid k) : Json.read .strict (m.frame k) = some (.object
    (Json.setMember "content" m.content (envelope m.channel.name m.topic m.msgType m.parentMsgId))) := by
  have htext : (m.base k).contentText =
      if Wire.isDeferred true (utf8 (Json.dump m.content)) then some (utf8 (Json.dump m.content)) else none :=
    Wire.readMessage_contentText ..
  cases hdeferred : Wire.isDeferred true (utf8 (Json.dump m.content)) with
  | true =>
    rw [hdeferred, if_pos rfl] at htext
    exact Supervisor.read_kept _ _ _ _ htext (decode_utf8 _) (Json.read_dump h.content.canonical)
  | false =>
    rw [hdeferred, if_neg Bool.false_ne_true] at htext
    have hcontent : (m.base k).content k.codec = m.content := by
      rw [KernelMessage.base, Supervisor.readMessage_not_deferred hdeferred, Supervisor.readMessage_parsed_content]
      exact h.content.parse_dump
    exact Supervisor.read_parsed _ _ _ _ htext hcontent h.content.canonical

/-- And the frame is on one line. -/
theorem frame_plain (h : m.Valid k) : ∀ c ∈ m.frame k, 0x20 ≤ c.toNat := by
  have hcanonical := Json.read_canonical h.read_frame
  unfold KernelMessage.frame frameText
  cases hdeferred : Wire.isDeferred true (utf8 (Json.dump m.content)) with
  | true =>
    have htext : (m.base k).contentText = some (utf8 (Json.dump m.content)) := by
      rw [KernelMessage.base, Wire.readMessage_contentText, hdeferred, if_pos rfl]
    simp only [htext, decode_utf8, Option.getD_some]
    intro c hc
    rcases List.mem_append.mp hc with hc | hc
    · rcases List.mem_append.mp hc with hc | hc
      · exact Supervisor.openMember_plain _ _ _ _ c hc
      · exact Json.dump_plain (Json.lex_dump h.content.canonical) c hc
    · rw [List.mem_singleton.mp hc]
      decide
  | false =>
    have htext : (m.base k).contentText = none := by
      rw [KernelMessage.base, Wire.readMessage_contentText, hdeferred, if_neg Bool.false_ne_true]
    have hcontent : (m.base k).content k.codec = m.content := by
      rw [KernelMessage.base, Supervisor.readMessage_not_deferred hdeferred, Supervisor.readMessage_parsed_content]
      exact h.content.parse_dump
    simp only [htext, hcontent]
    exact Json.dump_plain (Json.lex_dump hcanonical)

end KernelMessage.Valid

end Message

/-! ## What the client makes of it -/

section Client

variable {text : List Char} {content : Json}

/-- The content goes between the channel and the type. -/
theorem setMember_content (channel topic msgType parentMsgId : String) :
    Json.setMember "content" content (envelope channel topic msgType parentMsgId) =
      [("channel", .string channel), ("content", content), ("msg_type", .string msgType),
        ("parent_msg_id", .string parentMsgId), ("topic", .string topic), ("type", .string "message")] := by
  have hchannel : "content" ≠ "channel" ∧ ¬ "content" < "channel" := by decide
  have htype : "content" ≠ "msg_type" ∧ "content" < "msg_type" := by decide
  rw [envelope, Json.setMember, if_neg hchannel.1, if_neg hchannel.2, Json.setMember, if_neg htype.1, if_pos htype.2]

/-- A frame with an envelope is a message. -/
theorem handleFrame_message {channel topic msgType parentMsgId : String}
    (h : Json.read .strict text =
      some (.object (Json.setMember "content" content (envelope channel topic msgType parentMsgId)))) :
    handleFrame text = .message {
      topic := some (.string topic)
      msgType
      channel := some (.string channel)
      parentMsgId := .string parentMsgId
      content := some content
      raw := text } := by
  rw [setMember_content] at h
  simp [handleFrame, parse, h, Json.get?, List.lookup_cons, Json.string?]

theorem canonical_strings (ms : List (String × String)) (h : ms.Pairwise fun m n => m.1 < n.1) :
    (Json.object (ms.map fun m => (m.1, .string m.2))).Canonical := by
  refine .object (List.pairwise_map.mpr h) fun m hm => ?_
  obtain ⟨n, -, rfl⟩ := List.mem_map.mp hm
  exact .string n.2

theorem canonical_interruptContent (interrupted : Bool) : (Item.interruptContent interrupted).Canonical := by
  cases interrupted with
  | true => exact canonical_strings [("status", "ok")] (by simp)
  | false =>
    refine canonical_strings [("ename", "InterruptFailed"),
      ("evalue", "the kernel process could not be interrupted"), ("status", "error")] ?_
    simp only [List.pairwise_cons, List.mem_cons, List.not_mem_nil, or_false, forall_eq_or_imp, forall_eq,
      List.Pairwise.nil, and_true, false_implies, implies_true]
    decide

/-- The supervisor's own frames are canonical. -/
theorem canonical_members (item : Item) : (Json.object item.members).Canonical := by
  cases item with
  | ready => exact canonical_strings [("type", "ready")] (by simp)
  | message m => exact canonical_strings [] .nil
  | kernelExit reason =>
    refine canonical_strings [("reason", reason), ("type", "kernelExit")] ?_
    simp only [List.pairwise_cons, List.mem_cons, List.not_mem_nil, or_false, forall_eq, List.Pairwise.nil, and_true,
      false_implies, implies_true]
    decide
  | requestError id error =>
    refine canonical_strings [("error", error), ("id", id), ("type", "requestError")] ?_
    simp only [List.pairwise_cons, List.mem_cons, List.not_mem_nil, or_false, forall_eq_or_imp, forall_eq,
      List.Pairwise.nil, and_true, false_implies, implies_true]
    decide
  | interruptReply id interrupted =>
    cases Supervisor.canonical_envelope "control" "interrupt_reply" "interrupt_reply" id with
    | object hsorted hall =>
      refine .object (Json.setMember_sorted _ _ hsorted) fun n hn => ?_
      rcases Json.mem_setMember hn with rfl | hn
      · exact canonical_interruptContent interrupted
      · exact hall n hn

theorem ne_nil_of_read {v : Json} (h : Json.read .strict text = some v) : text ≠ [] := by
  rintro rfl
  rw [Json.read, Json.lex] at h
  exact absurd h.symm (Option.some_ne_none v)

/-- The supervisor's own frames, at the client. -/
theorem handleFrame_members {item : Item} (hown : ∀ m, item ≠ .message m)
    (h : Json.read .strict text = some (.object item.members)) : item.Got (handleFrame text) := by
  cases item with
  | message m => exact absurd rfl (hown m)
  | interruptReply id interrupted => exact ⟨text, handleFrame_message h⟩
  | ready =>
    show handleFrame text = _
    simp only [Item.members] at h
    simp [handleFrame, h, Json.get?, Json.string?]
  | kernelExit reason =>
    show handleFrame text = _
    simp only [Item.members] at h
    simp [handleFrame, h, Json.get?, List.lookup_cons, Json.string?, stringOr]
  | requestError id error =>
    show handleFrame text = _
    simp only [Item.members] at h
    simp [handleFrame, h, Json.get?, List.lookup_cons, Json.string?, stringOr]

/-- **An item is pushed as one line**, and the client gets it as what it is. -/
theorem Item.frame_got {k : Link} {item : Item} (h : item.Valid k) :
    ∃ text, item.frame k = .ok (some text) ∧ (∀ c ∈ text, 0x20 ≤ c.toNat) ∧ text ≠ [] ∧
      item.Got (handleFrame text) := by
  by_cases hmessage : ∃ m, item = .message m
  · obtain ⟨m, rfl⟩ := hmessage
    have hm : m.Valid k := h
    obtain ⟨relayed, hdrain, hframe⟩ := hm.drain_eq
    refine ⟨m.frame k, ?_, hm.frame_plain, ne_nil_of_read hm.read_frame, m.frame k, handleFrame_message hm.read_frame⟩
    show (Supervisor.drain k.codec m.channel (m.wire k) >>= _) = _
    rw [hdrain, ← hframe]
    rfl
  · have hown : ∀ m, item ≠ .message m := fun m hm => hmessage ⟨m, hm⟩
    have hread : Json.read .strict (Json.dump (.object item.members)) = some (.object item.members) :=
      Json.read_dump (canonical_members item)
    refine ⟨_, ?_, Json.dump_plain (Json.lex_dump (canonical_members item)), ne_nil_of_read hread, handleFrame_members hown hread⟩
    cases item with
    | message m => exact absurd rfl (hown m)
    | _ => rfl

end Client

/-! ## Delivery -/

/-- Frames whose lines are some texts are received as those. -/
theorem received_frames {frames : List Outbox.Text} {lines : List (List Char)}
    (hlines : frames.flatMap Outbox.lines = lines.map utf8)
    (hplain : ∀ line ∈ lines, (∀ c ∈ line, 0x20 ≤ c.toNat) ∧ line ≠ []) :
    frames.flatMap received = lines.map handleFrame := by
  induction frames generalizing lines with
  | nil =>
    have hnil : lines = [] := List.map_eq_nil_iff.mp hlines.symm
    rw [hnil]
    rfl
  | cons frame frames ih =>
    rw [List.flatMap_cons] at hlines ⊢
    obtain ⟨first, rest, rfl, hfirst, hrest⟩ := List.map_eq_append_iff.mp hlines.symm
    rw [List.map_append, ih hrest.symm fun line hline => hplain line (List.mem_append_right _ hline)]
    congr 1
    exact received_lines hfirst.symm (fun line hline => (hplain line (List.mem_append_left _ hline)).1)
      fun line hline => (hplain line (List.mem_append_left _ hline)).2

/-- One item's text on its way. -/
structure Item.Travels (k : Link) (item : Item) (text : List Char) : Prop where
  frame : item.frame k = .ok (some text)
  plain : ∀ c ∈ text, 0x20 ≤ c.toNat
  ne_nil : text ≠ []
  got : item.Got (handleFrame text)

theorem exists_travels {k : Link} {items : List Item} (h : ∀ item ∈ items, item.Valid k) :
    ∃ texts, List.Forall₂ (Item.Travels k) items texts := by
  induction items with
  | nil => exact ⟨[], .nil⟩
  | cons item items ih =>
    obtain ⟨text, hframe, hplain, hne, hgot⟩ := Item.frame_got (h item List.mem_cons_self)
    obtain ⟨texts, htexts⟩ := ih fun item hitem => h item (List.mem_cons_of_mem _ hitem)
    exact ⟨text :: texts, .cons ⟨hframe, hplain, hne, hgot⟩ htexts⟩

theorem exists_pushed {k : Link} {items : List Item} {texts : List (List Char)}
    (h : List.Forall₂ (Item.Travels k) items texts) :
    ∃ pushed, List.Forall₂ (Item.Pushes k) items pushed ∧ pushed.map Outbox.Message.text = texts.map utf8 := by
  induction h with
  | nil => exact ⟨[], .nil, rfl⟩
  | @cons item text items texts hitem _ ih =>
    obtain ⟨pushed, hpushed, htexts⟩ := ih
    have hne : utf8 text ≠ [] := fun hnil => hitem.ne_nil (utf8_inj (hnil.trans rfl))
    refine ⟨⟨utf8 text, hne, newline_not_mem hitem.plain⟩ :: pushed, .cons ⟨text, hitem.frame, rfl⟩ hpushed, ?_⟩
    rw [List.map_cons, htexts]
    rfl

theorem travels_plain {k : Link} {items : List Item} {texts : List (List Char)}
    (h : List.Forall₂ (Item.Travels k) items texts) :
    ∀ text ∈ texts, (∀ c ∈ text, 0x20 ≤ c.toNat) ∧ text ≠ [] := by
  induction h with
  | nil => exact fun text htext => absurd htext List.not_mem_nil
  | cons hitem _ ih =>
    intro text htext
    rcases List.mem_cons.mp htext with rfl | htext
    · exact ⟨hitem.plain, hitem.ne_nil⟩
    · exact ih text htext

/-- **What the client gets**: the items that were pushed, each as what it is, in their order; all of
them once the sender has ended without being abandoned. -/
theorem delivers (k : Link) (items : List Item) (hitems : ∀ item ∈ items, item.Valid k) :
    ∃ pushed, List.Forall₂ (Item.Pushes k) items pushed ∧
      ∀ s, Outbox.system.Reachable s → s.pushed = pushed →
        ∃ got, got <+: items ∧ List.Forall₂ Item.Got got (s.sent.flatMap received) ∧
          (s.sender = .ended → s.abandoned = false → got = items) := by
  obtain ⟨texts, htravels⟩ := exists_travels hitems
  obtain ⟨pushed, hpushed, htexts⟩ := exists_pushed htravels
  have hplain := travels_plain htravels
  refine ⟨pushed, hpushed, fun s hs hspushed => ?_⟩
  have hinv := Outbox.inv_of_reachable hs
  have hstexts : s.texts = texts.map utf8 := by
    rw [Outbox.State.texts, hspushed, htexts]
  -- what was sent carries the first `n` of the texts
  have hprefix : s.delivered <+: texts.map utf8 :=
    hstexts ▸ (List.prefix_append _ _).trans hinv.in_order
  have hlines : s.sent.flatMap Outbox.lines = (texts.take s.delivered.length).map utf8 := by
    rw [List.map_take]
    exact List.prefix_iff_eq_take.mp hprefix
  have hreceived := received_frames hlines fun text htext => hplain text (List.mem_of_mem_take htext)
  refine ⟨items.take s.delivered.length, List.take_prefix _ _, ?_, fun hended hkept => ?_⟩
  · rw [hreceived, List.forall₂_map_right_iff]
    exact (List.forall₂_take _ htravels).imp fun _ _ h => h.got
  · have hall : s.delivered.length = items.length := by
      rw [hinv.complete hended hkept, hstexts, List.length_map, htravels.length_eq]
    rw [hall, List.take_length]

/-! ## A cell's output, and the kernel's end -/

def exampleLink : Link := ⟨Wire.checksum, fun _ => 0, fun _ => true⟩

def streamMessage : KernelMessage where
  channel := .iopub
  before := [[115, 116, 114, 101, 97, 109]]
  header := .object [("msg_type", .string "stream")]
  parentHeader := .object [("msg_id", .string "cell-1")]
  metadata := .object []
  content := .object [("text", .string "hi")]
  buffers := []

theorem holds_strings (ms : List (String × String)) (h : ms.Pairwise fun m n => m.1 < n.1) :
    exampleLink.Holds (.object (ms.map fun m => (m.1, .string m.2))) :=
  ⟨canonical_strings ms h, fun _ _ => rfl⟩

theorem valid_streamMessage : streamMessage.Valid exampleLink where
  before := by decide
  header := holds_strings [("msg_type", "stream")] (by simp)
  parentHeader := holds_strings [("msg_id", "cell-1")] (by simp)
  metadata := holds_strings [] .nil
  content := holds_strings [("text", "hi")] (by simp)
  typed := Supervisor.reads_iff.1 ⟨"stream", rfl⟩
  parent := Supervisor.reads_iff.1 ⟨"cell-1", rfl⟩
  topic _ := by
    rw [← Utf8.isText_eq]
    decide

theorem delivers_stream :
    ∃ pushed, List.Forall₂ (Item.Pushes exampleLink)
        [.ready, .message streamMessage, .kernelExit "process exited with code 0"] pushed ∧
      ∀ s, Outbox.system.Reachable s → s.pushed = pushed →
        ∃ got, got <+: [.ready, .message streamMessage, .kernelExit "process exited with code 0"] ∧
          List.Forall₂ Item.Got got (s.sent.flatMap received) ∧
          (s.sender = .ended → s.abandoned = false →
            got = [.ready, .message streamMessage, .kernelExit "process exited with code 0"]) :=
  delivers exampleLink [.ready, .message streamMessage, .kernelExit "process exited with code 0"] (by
    intro item hitem
    simp only [List.mem_cons, List.not_mem_nil, or_false] at hitem
    rcases hitem with rfl | rfl | rfl
    · trivial
    · exact valid_streamMessage
    · trivial)

end Jovian.Delivery
