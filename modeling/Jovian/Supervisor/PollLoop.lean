import Jovian.Lib.JsonText
import Jovian.Supervisor.Relay
import Jovian.Wire.Serializer

/-!
# Jovian — one round of the poll loop, and what can end it

`pollLoop` makes a frame of every message of the kernel. Output has been read and checked in the
thread of its own that catches what it throws (`ClientIopub::run`); replies are read here, and
nothing here catches. An exception leaves the thread, and ends the supervisor.

* **`iteration_survives_iff`** — a round gets to its end exactly when every message it meets is
  `Harmless`.
-/

namespace Jovian.Supervisor

open Utf8 (Bytes)
open Wire (Codec MessageBase PubMessage Signed)
open Relay (Channel PerChannel)

/-! ## Frames -/

/-- The members of a frame, but for its content. -/
def envelope (channel topic msgType parentMsgId : String) : List (String × Json) :=
  [("channel", .string channel), ("msg_type", .string msgType),
    ("parent_msg_id", .string parentMsgId), ("topic", .string topic), ("type", .string "message")]

/-- A string made of bytes, to be written: `dump()` throws where they are not UTF-8. -/
def textOf (bytes : Bytes) : Except Json.Error String :=
  match Utf8.decode bytes with
  | none => .error .invalidUtf8
  | some cs => .ok (String.ofList cs)

/-- The frame a client gets for a message. Content that was kept as text goes in as it is, in
front of the envelope's closing brace. -/
def frameFor (k : Codec) (channel : String) (topic : Except Json.Error String) (m : MessageBase) :
    Except Json.Error (List Char) := do
  let msgType ← m.header.valueString "msg_type" ""
  let parentMsgId ← m.parentHeader.valueString "msg_id" ""
  let members := envelope channel (← topic) msgType parentMsgId
  match m.contentText with
  | none => return Json.dump (.object (Json.setMember "content" (m.content k) members))
  | some text =>
    let head := (Json.dump (.object members)).dropLast
    return head ++ ",\"content\":".toList ++ (Utf8.decode text).getD [] ++ ['}']

structure Relayed where
  frame : List Char
  /-- Whether it says that the kernel has answered its `shutdown_request`. -/
  shutdownReply : Bool

/-- A reply is framed under its type. -/
def relay (k : Codec) (channel : String) (msg : Wire.Message) : Except Json.Error Relayed := do
  let msgType ← msg.base.header.valueString "msg_type" ""
  let frame ← frameFor k channel (.ok msgType) msg.base
  return { frame, shutdownReply := msgType = "shutdown_reply" }

/-! ## The loop -/

/-- What `ClientIopub::run` queues: it reads a message and its type, and drops what throws. -/
def queued (k : Codec) (wire : List Bytes) : Option PubMessage :=
  match Wire.deserializeIopub k true wire with
  | .error _ => none
  | .ok msg =>
    match msg.base.header.valueString "msg_type" "" with
    | .error _ => none
    | .ok _ => some msg

def drainIopub (k : Codec) (wire : List Bytes) : Except Wire.Exception (Option Relayed) :=
  match queued k wire with
  | none => .ok none
  | some msg =>
    match frameFor k Channel.iopub.name (textOf msg.topic) msg.base with
    | .error e => .error (.json e)
    | .ok frame => .ok (some { frame, shutdownReply := false })

/-- `receiveOnShell`, `receiveOnControl` or `receiveOnStdin`, and the relay of what it returns. -/
def drainReply (k : Codec) (ch : Channel) (wire : List Bytes) :
    Except Wire.Exception (Option Relayed) :=
  match Wire.deserialize k true wire with
  | .error e => .error e
  | .ok msg =>
    match relay k ch.name msg with
    | .error e => .error (.json e)
    | .ok relayed => .ok (some relayed)

/-- One message of a channel; none where it was dropped. -/
def drain (k : Codec) (ch : Channel) (wire : List Bytes) :
    Except Wire.Exception (Option Relayed) :=
  if ch = .iopub then drainIopub k wire else drainReply k ch wire

/-- One round: `drainIopub`, and then shell, control and stdin. -/
def iteration (k : Codec) (pending : PerChannel (List (List Bytes))) :
    Except Wire.Exception (List (Option Relayed)) := do
  let iopub ← pending.iopub.mapM (drain k .iopub)
  let shell ← pending.shell.mapM (drain k .shell)
  let control ← pending.control.mapM (drain k .control)
  let stdin ← pending.stdin.mapM (drain k .stdin)
  return iopub ++ shell ++ control ++ stdin

/-! ## What is promised -/

/-- `j.value(key, "")` returns. -/
def Reads (j : Json) (key : String) : Prop :=
  j.isObject = true ∧ ∀ v, j.get? key = some v → v.string?.isSome = true

/-- A message that can be made a frame: a string for a type, and one for a parent. -/
def Framed (k : Codec) (header parentHeader : Bytes) : Prop :=
  Reads (k.parse header) "msg_type" ∧ Reads (k.parse parentHeader) "msg_id"

/-- A message that does not end the loop. Output that is not read, or has no type, was dropped
before; any other message must be read here. -/
def Harmless (k : Codec) (ch : Channel) (wire : List Bytes) : Prop :=
  if ch = .iopub then
    ∀ before header parentHeader metadata content buffers,
      Signed k wire before header parentHeader metadata content buffers →
      Reads (k.parse header) "msg_type" →
      Reads (k.parse parentHeader) "msg_id" ∧ (Utf8.decode (before.head?.getD [])).isSome = true
  else
    ∃ before header parentHeader metadata content buffers,
      Signed k wire before header parentHeader metadata content buffers ∧ Framed k header parentHeader

/-! ## What throws -/

section Throws

variable {k : Codec}

theorem reads_iff {j : Json} {key : String} :
    (∃ s, j.valueString key "" = .ok s) ↔ Reads j key :=
  Json.value_ok_iff

theorem textOf_ok_iff {bytes : Bytes} :
    (∃ s, textOf bytes = .ok s) ↔ (Utf8.decode bytes).isSome = true := by
  unfold textOf
  cases Utf8.decode bytes <;> simp

/-- **A frame is made** of a message whose headers and topic can be written. -/
theorem frameFor_ok_iff (channel : String) (topic : Except Json.Error String) (m : MessageBase) :
    (∃ frame, frameFor k channel topic m = .ok frame) ↔
      Reads m.header "msg_type" ∧ Reads m.parentHeader "msg_id" ∧ ∃ s, topic = .ok s := by
  rw [← reads_iff, ← reads_iff]
  unfold frameFor
  cases hheader : m.header.valueString "msg_type" "" with
  | error e => simp
  | ok msgType =>
    cases hparent : m.parentHeader.valueString "msg_id" "" with
    | error e => simp
    | ok parentMsgId =>
      cases htopic : topic with
      | error e => simp
      | ok topic =>
        cases m.contentText <;> simp [pure, Except.pure]

theorem relay_ok_iff (channel : String) (msg : Wire.Message) :
    (∃ relayed, relay k channel msg = .ok relayed) ↔
      Reads msg.base.header "msg_type" ∧ Reads msg.base.parentHeader "msg_id" := by
  unfold relay
  cases hheader : msg.base.header.valueString "msg_type" "" with
  | error e =>
    have hnot : ¬ Reads msg.base.header "msg_type" := fun h => by
      obtain ⟨s, hs⟩ := reads_iff.2 h
      rw [hheader] at hs
      cases hs
    simp [hnot]
  | ok msgType =>
    have hreads : Reads msg.base.header "msg_type" := reads_iff.1 ⟨msgType, hheader⟩
    have hframe := @frameFor_ok_iff k channel (.ok msgType) msg.base
    simp only [hreads, true_and, Except.ok.injEq, exists_eq', and_true] at hframe ⊢
    rw [← hframe]
    cases hf : frameFor k channel (.ok msgType) msg.base <;> simp [hf, pure, Except.pure]

theorem queued_eq_some {wire : List Bytes} {msg : PubMessage} :
    queued k wire = some msg ↔
      Wire.deserializeIopub k true wire = .ok msg ∧ Reads msg.base.header "msg_type" := by
  unfold queued
  cases hread : Wire.deserializeIopub k true wire with
  | error e => simp
  | ok msg' =>
    rw [← reads_iff]
    simp only [Except.ok.injEq]
    cases hheader : msg'.base.header.valueString "msg_type" "" with
    | error e =>
      refine iff_of_false (by simp) ?_
      rintro ⟨rfl, s, hs⟩
      rw [hheader] at hs
      cases hs
    | ok s =>
      simp only [Option.some.injEq, iff_self_and]
      rintro rfl
      exact ⟨s, hheader⟩

theorem drainIopub_ok_iff {wire : List Bytes} :
    (∃ r, drainIopub k wire = .ok r) ↔ Harmless k .iopub wire := by
  -- a message that is queued fails only where its frame does
  have hframe : ∀ msg, queued k wire = some msg →
      ((∃ r, drainIopub k wire = .ok r) ↔
        Reads msg.base.header "msg_type" ∧ Reads msg.base.parentHeader "msg_id" ∧
          (Utf8.decode msg.topic).isSome = true) := by
    intro msg hmsg
    have hiff := @frameFor_ok_iff k Channel.iopub.name (textOf msg.topic) msg.base
    rw [textOf_ok_iff] at hiff
    rw [← hiff]
    unfold drainIopub
    simp only [hmsg]
    cases frameFor k Channel.iopub.name (textOf msg.topic) msg.base <;> simp
  unfold Harmless
  rw [if_pos rfl]
  constructor
  · intro h before header parentHeader metadata content buffers hsigned hreads
    have hread : Wire.deserializeIopub k true wire = .ok
        { topic := before.head?.getD []
          base := Wire.readMessage k true header parentHeader metadata content buffers } :=
      Wire.deserializeIopub_ok_iff.2 ⟨_, _, _, _, _, _, hsigned, rfl, rfl⟩
    have hqueued := queued_eq_some.2 ⟨hread, by simpa using hreads⟩
    have hall := (hframe _ hqueued).1 h
    simpa using hall.2
  · intro h
    cases hqueued : queued k wire with
    -- a message that cannot be read is not queued
    | none => exact ⟨none, by simp [drainIopub, hqueued]⟩
    | some msg =>
      obtain ⟨hread, hreads⟩ := queued_eq_some.1 hqueued
      obtain ⟨before, header, parentHeader, metadata, content, buffers, hsigned, htopic, hbase⟩ :=
        Wire.deserializeIopub_ok_iff.1 hread
      have hheader : Reads (k.parse header) "msg_type" := by
        rw [hbase] at hreads
        simpa using hreads
      obtain ⟨hparent, htext⟩ := h _ _ _ _ _ _ hsigned hheader
      refine (hframe msg hqueued).2 ⟨hreads, ?_, htopic ▸ htext⟩
      rw [hbase]
      simpa using hparent

theorem drainReply_ok_iff {ch : Channel} (hch : ch ≠ .iopub) {wire : List Bytes} :
    (∃ r, drainReply k ch wire = .ok r) ↔ Harmless k ch wire := by
  unfold Harmless
  rw [if_neg hch]
  cases hread : Wire.deserialize k true wire with
  | error e =>
    -- no frame with a good signature is unreadable
    refine iff_of_false (by simp [drainReply, hread]) ?_
    rintro ⟨before, header, parentHeader, metadata, content, buffers, hsigned, -⟩
    have hok : Wire.deserialize k true wire = .ok
        { identities := before
          base := Wire.readMessage k true header parentHeader metadata content buffers } :=
      Wire.deserialize_ok_iff.2 ⟨_, _, _, _, _, hsigned, rfl⟩
    rw [hread] at hok
    cases hok
  | ok msg =>
    have hrelay : (∃ r, drainReply k ch wire = .ok r) ↔
        Reads msg.base.header "msg_type" ∧ Reads msg.base.parentHeader "msg_id" := by
      rw [← @relay_ok_iff k ch.name]
      unfold drainReply
      simp only [hread]
      cases relay k ch.name msg <;> simp
    rw [hrelay]
    obtain ⟨header, parentHeader, metadata, content, buffers, hsigned, hbase⟩ :=
      Wire.deserialize_ok_iff.1 hread
    constructor
    · intro h
      rw [hbase] at h
      exact ⟨_, _, _, _, _, _, hsigned, by simpa [Framed] using h⟩
    · rintro ⟨before, header', parentHeader', metadata', content', buffers', hsigned', hframed⟩
      have hread' : Wire.deserialize k true wire = .ok
          { identities := before
            base := Wire.readMessage k true header' parentHeader' metadata' content' buffers' } :=
        Wire.deserialize_ok_iff.2 ⟨_, _, _, _, _, hsigned', rfl⟩
      rw [hread] at hread'
      rw [Except.ok.inj hread']
      simpa [Framed] using hframed

theorem drain_ok_iff {ch : Channel} {wire : List Bytes} :
    (∃ r, drain k ch wire = .ok r) ↔ Harmless k ch wire := by
  unfold drain
  by_cases hch : ch = .iopub
  · rw [if_pos hch, hch]
    exact drainIopub_ok_iff
  · rw [if_neg hch]
    exact drainReply_ok_iff hch

end Throws

/-- A list is gone through to its end when nothing in it throws. -/
theorem mapM_ok_iff {ε α β : Type} {f : α → Except ε β} {l : List α} :
    (∃ rs, l.mapM f = .ok rs) ↔ ∀ a ∈ l, ∃ r, f a = .ok r := by
  induction l with
  | nil => simp [pure, Except.pure]
  | cons a l ih =>
    rw [List.mapM_cons]
    cases ha : f a with
    | error e => simp [ha]
    | ok r =>
      simp only [ok_bind, List.mem_cons, forall_eq_or_imp, ha, Except.ok.injEq, exists_eq', true_and]
      rw [← ih]
      cases l.mapM f <;> simp [pure, Except.pure]

/-- **When a round of the poll loop survives**: exactly when every message it meets is harmless. -/
theorem iteration_survives_iff (k : Codec) (pending : PerChannel (List (List Bytes))) :
    (∃ frames, iteration k pending = .ok frames) ↔
      ∀ ch, ∀ wire ∈ pending.get ch, Harmless k ch wire := by
  have hchannel : ∀ ch, (∃ rs, (pending.get ch).mapM (drain k ch) = .ok rs) ↔
      ∀ wire ∈ pending.get ch, Harmless k ch wire := fun ch => by
    rw [mapM_ok_iff]
    exact forall_congr' fun wire => imp_congr_right fun _ => drain_ok_iff
  -- the first channel that fails ends the iteration
  have hall : (∃ frames, iteration k pending = .ok frames) ↔
      ∀ ch, ∃ rs, (pending.get ch).mapM (drain k ch) = .ok rs := by
    unfold iteration
    constructor
    · rintro ⟨frames, h⟩
      cases hi : pending.iopub.mapM (drain k .iopub) with
      | error e => simp [hi] at h
      | ok iopub =>
        cases hs : pending.shell.mapM (drain k .shell) with
        | error e => simp [hi, hs] at h
        | ok shell =>
          cases hc : pending.control.mapM (drain k .control) with
          | error e => simp [hi, hs, hc] at h
          | ok control =>
            cases hd : pending.stdin.mapM (drain k .stdin) with
            | error e => simp [hi, hs, hc, hd] at h
            | ok stdin =>
              intro ch
              cases ch with
              | iopub => exact ⟨iopub, hi⟩
              | shell => exact ⟨shell, hs⟩
              | control => exact ⟨control, hc⟩
              | stdin => exact ⟨stdin, hd⟩
    · intro h
      obtain ⟨iopub, hi⟩ := h .iopub
      obtain ⟨shell, hs⟩ := h .shell
      obtain ⟨control, hc⟩ := h .control
      obtain ⟨stdin, hd⟩ := h .stdin
      change pending.iopub.mapM _ = _ at hi
      change pending.shell.mapM _ = _ at hs
      change pending.control.mapM _ = _ at hc
      change pending.stdin.mapM _ = _ at hd
      exact ⟨_, by rw [hi, hs, hc, hd]; rfl⟩
  rw [hall]
  exact forall_congr' hchannel

/-- A kernel whose signature is always good, and whose frames are JSON as they look: `null`, an
object without members, and an object with a type. -/
def trustedKernel : Codec where
  parse bytes :=
    if bytes = "null".toList.map (·.toNat.toUInt8) then .null
    else if bytes = "\x7b\x7d".toList.map (·.toNat.toUInt8) then .object []
    else .object [("msg_type", .string "status")]
  verify _ _ _ _ _ := true

/-- A signed message of the kernel without a parent: its parent header is `null`. -/
def orphan : List Bytes :=
  [Wire.delimiter, []] ++ (["\x7b\"msg_type\":\"status\"\x7d", "null", "\x7b\x7d", "\x7b\x7d"].map fun frame =>
    frame.toList.map (·.toNat.toUInt8))

/-- **One message without a parent ends the supervisor**, on output as on a reply. -/
theorem orphan_ends_loop :
    ¬ (∃ frames, iteration trustedKernel ⟨[orphan], [], [], []⟩ = .ok frames) ∧
      ¬ ∃ frames, iteration trustedKernel ⟨[], [orphan], [], []⟩ = .ok frames := by
  have hiopub : iteration trustedKernel ⟨[orphan], [], [], []⟩ = .error (.json .notAnObject) := by
    rfl
  have hshell : iteration trustedKernel ⟨[], [orphan], [], []⟩ = .error (.json .notAnObject) := by
    rfl
  rw [hiopub, hshell]
  simp

end Jovian.Supervisor
