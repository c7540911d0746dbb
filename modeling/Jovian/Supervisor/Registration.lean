import Jovian.Lib.JsonText
import Jovian.Wire.Authentication

/-!
# Jovian — a kernel registers (`ClientHandshakeZmqImpl`)

One socket takes the registrations of all kernels, in two forms. The short one is a signature and a
JSON object with the kernel's id and its ports; it is refused where the signature does not pass or
the id is another's, and the wait goes on. The other is a Jupyter message of JEP 66, told by its five
frames behind the delimiter. It carries no id. Where its signature does not pass, or a frame list
has no delimiter, an exception ends the wait.

* **`registration_sound_iff`** — the wait takes the registration it is for (`Sound`).
* **`registration_robust_iff`** — messages that are not signed do not end it (`Robust`).
-/

namespace Jovian.Registration

open Utf8 (Bytes)
open Wire (Exception OpensslAuthentication delimiter splitDelimiter WellSigned)

/-! ## Messages and what is read of them -/

/-- A message on the registration socket, and what lies in memory behind its signature. -/
structure Received where
  frames : List Bytes
  behind : Nat → UInt8

/-- The listener: its key, `json::parse`, and numbers as text. -/
structure Listener where
  auth : OpensslAuthentication
  parse : Bytes → Json
  /-- `std::to_string` of a number as a `long long` -/
  integerText : String → String

structure Ports where
  control : String
  shell : String
  stdin : String
  iopub : String
  hb : String
deriving DecidableEq

structure KernelConfiguration where
  kernelId : String := ""
  ports : Ports
deriving DecidableEq

/-- What is sent back. -/
inductive Answer where
  | handshakeReply
  | ack
  | rejected (why : String)
deriving DecidableEq

/-- What becomes of a message. -/
inductive Verdict where
  | refused (answers : List Answer)
  | taken (config : KernelConfiguration) (answer : Answer)
  | thrown (e : Exception)

section

variable (L : Listener)

/-- `content.at(name)`: a string, or a number as text. -/
def portAt (content : Json) (name : String) : Except Exception String :=
  if content.isObject = false then .error (.json .notAnObject)
  else match content.get? name with
  | some (.string s) => .ok s
  | some (.number n) => .ok (L.integerText n)
  | some (.bool b) => .ok (if b then "1" else "0")
  | some _ => .error (.json (.wrongType name))
  | none => .error (.runtime s!"[json.exception.out_of_range.403] key '{name}' not found")

/-- `j[name].get<std::string>()` -/
def portOf (j : Json) (name : String) : Except Exception String :=
  match j.get? name with
  | some (.string s) => .ok s
  | _ => .error (.json (.wrongType name))

def readPorts (port : String → Except Exception String) : Except Exception Ports := do
  let control ← port "control_port"
  let shell ← port "shell_port"
  let stdin ← port "stdin_port"
  let iopub ← port "iopub_port"
  let hb ← port "hb_port"
  return { control, shell, stdin, iopub, hb }

def valueString (j : Json) (key : String) : Except Exception String :=
  (j.valueString key "").mapError .json

/-! ## The two forms -/

/-- Frames that are long enough for a Jupyter message. -/
def isLong (frames : List Bytes) : Bool :=
  match splitDelimiter frames with
  | some (_, after) => decide (5 ≤ after.length)
  | none => false

/-- A `handshake_request`'s configuration; `none` where it is none. -/
def readJep66Handshake (m : Received) : Except Exception (Option KernelConfiguration) := do
  if isLong m.frames = false then
    return none
  let k := L.auth.codec L.parse m.behind
  match Wire.deserialize k false m.frames with
  | .error _ => throw (.runtime "Rejected a kernel's handshake: ERROR: Signatures don't match")
  | .ok request =>
    let msgType ← valueString request.base.header "msg_type"
    if msgType ≠ "handshake_request" then
      return none
    let ports ← readPorts (portAt L (request.base.content k))
    let _ ← valueString request.base.header "session"
    return some { ports }

def refuse (why : String) : Verdict := .refused [.rejected why]

/-- The short form, whose signature has passed. -/
def readSigned (expectedKernelId : String) (j : Json) : Except Exception Verdict := do
  if j.isObject = false then
    return refuse "not a JSON object"
  let kernelId ← valueString j "kernel_id"
  if expectedKernelId ≠ "" ∧ kernelId ≠ expectedKernelId then
    return refuse ("another kernel's (" ++ kernelId ++ ", not " ++ expectedKernelId ++ ")")
  let ports ← readPorts (portOf j)
  return .taken { kernelId, ports } .ack

def readShortForm (expectedKernelId : String) (m : Received) : Except Exception Verdict := do
  let (_, after) ← Wire.deserializeZmqId m.frames
  match after with
  | signature :: content :: _ =>
    if (L.auth.verifyImpl m.behind signature [content]).1 = false then
      return refuse "not signed with this supervisor's key"
    readSigned expectedKernelId (L.parse content)
  | _ => return .refused []

/-- One turn of `waitForConfiguration`. -/
def register (expectedKernelId : String) (m : Received) : Verdict :=
  let verdict : Except Exception Verdict := do
    match ← readJep66Handshake L m with
    | some config => return .taken config .handshakeReply
    | none => readShortForm L expectedKernelId m
  match verdict with
  | .ok verdict => verdict
  | .error e => .thrown e

/-! ## The wait -/

/-- What comes of 250 ms at the socket. -/
inductive Arrival where
  | message (m : Received)
  /-- Nothing: whether the kernel has died, and whether the deadline has passed. -/
  | quiet (shouldAbort late : Bool)

inductive Result where
  | waiting
  /-- The configuration, and the message it was in. -/
  | returned (config : KernelConfiguration) (m : Received)
  | thrown (e : Exception)

def waitForConfiguration (expectedKernelId : String) : List Arrival → Result
  | [] => .waiting
  | .quiet shouldAbort late :: arrivals =>
    if shouldAbort then .thrown (.runtime ("Kernel process exited before it could register -- " ++
      "check its stderr output for the actual error."))
    else if late then .thrown (.runtime ("Did not receive kernel configuration within 60s -- the " ++
      "kernel process is still running but never registered. Check its stderr output for what " ++
      "it's doing."))
    else waitForConfiguration expectedKernelId arrivals
  | .message m :: arrivals =>
    match register L expectedKernelId m with
    | .refused _ => waitForConfiguration expectedKernelId arrivals
    | .taken config _ => .returned config m
    | .thrown e => .thrown e

end

/-! ## The properties -/

section

variable (L : Listener) (expectedKernelId : String)

/-- The kernel that is waited for is named, if one is waited for. -/
def Names (j : Json) : Prop :=
  expectedKernelId = "" ∨ j.get? "kernel_id" = some (.string expectedKernelId)

/-- A `handshake_request` whose signature passes: its signature, what it is of, its content and
the ports there. -/
structure IsHandshake (m : Received) (signature : Bytes) (parts : List Bytes) (content : Json)
    (ports : Ports) : Prop where
  frames : ∃ before header parentHeader metadata contentFrame buffers,
    splitDelimiter m.frames = some (before,
      signature :: header :: parentHeader :: metadata :: contentFrame :: buffers) ∧
    parts = [header, parentHeader, metadata, contentFrame] ∧
    valueString (L.parse header) "msg_type" = .ok "handshake_request" ∧
    (∃ session, valueString (L.parse header) "session" = .ok session) ∧
    content = L.parse contentFrame
  passes : (L.auth.verifyImpl m.behind signature parts).1 = true
  ports : readPorts (portAt L content) = .ok ports

/-- A short form whose signature passes: its signature, the frame it is of, and what is there. -/
structure IsShortForm (m : Received) (signature content : Bytes) (config : KernelConfiguration) :
    Prop where
  other : readJep66Handshake L m = .ok none
  frames : ∃ ids rest, splitDelimiter m.frames = some (ids, signature :: content :: rest)
  passes : (L.auth.verifyImpl m.behind signature [content]).1 = true
  object : (L.parse content).isObject = true
  kernelId : valueString (L.parse content) "kernel_id" = .ok config.kernelId
  ports : readPorts (portOf (L.parse content)) = .ok config.ports

/-- **A registration of the kernel that is waited for**, in either form: signed with the key, and
under its id. -/
inductive Genuine (m : Received) : KernelConfiguration → Prop where
  | handshake {signature : Bytes} {parts : List Bytes} {content : Json} {ports : Ports}
      (h : IsHandshake L m signature parts content ports) (hsigned : signature = L.auth.sign parts)
      (hnames : Names expectedKernelId content) : Genuine m { ports }
  | shortForm {signature content : Bytes} {config : KernelConfiguration}
      (h : IsShortForm L m signature content config) (hsigned : signature = L.auth.sign [content])
      (hnames : Names expectedKernelId (L.parse content)) : Genuine m config

/-- **Registration is sound**: what is returned is in a registration of that kernel. -/
def Sound (arrivals : List Arrival) : Prop :=
  ∀ config m, waitForConfiguration L expectedKernelId arrivals = .returned config m →
    Genuine L expectedKernelId m config

/-- A `handshake_request` that does not name the kernel, and a signature that passes and is none. -/
inductive Strange (m : Received) : Prop where
  | handshake {signature : Bytes} {parts : List Bytes} {content : Json} {ports : Ports}
      (h : IsHandshake L m signature parts content ports)
      (hstrange : ¬Names expectedKernelId content ∨ signature ≠ L.auth.sign parts) : Strange m
  | shortForm {signature content : Bytes} {config : KernelConfiguration}
      (h : IsShortForm L m signature content config) (hid : config.kernelId = expectedKernelId)
      (hstrange : signature ≠ L.auth.sign [content]) : Strange m

/-- A message that is not signed with the key, read in either form. -/
def Unsigned (m : Received) : Prop :=
  ∀ before signature after, splitDelimiter m.frames = some (before, signature :: after) →
    (∀ content rest, after = content :: rest → signature ≠ L.auth.sign [content]) ∧
    ∀ header parentHeader metadata content buffers,
      after = header :: parentHeader :: metadata :: content :: buffers →
      signature ≠ L.auth.sign [header, parentHeader, metadata, content]

/-- What comes while the kernel starts: messages that are not signed, and nothing. -/
abbrev Noise := Option { m : Received // Unsigned L m }

variable {L} in
def Noise.arrival : Noise L → Arrival
  | none => .quiet false false
  | some m => .message m.val

/-- **Registration is robust**: the wait goes on, and takes a registration of the kernel that comes
then. -/
structure Robust (noise : List (Noise L)) : Prop where
  refused : ∀ m, some m ∈ noise → ∃ answers, register L expectedKernelId m.val = .refused answers
  waits : waitForConfiguration L expectedKernelId (noise.map Noise.arrival) = .waiting
  returns : ∀ m config, Genuine L expectedKernelId m config →
    waitForConfiguration L expectedKernelId (noise.map Noise.arrival ++ [.message m]) =
      .returned config m

/-- The signature passes, in the form that a message is read in first. -/
inductive Passes (m : Received) : Prop where
  | handshake {before buffers : List Bytes}
      {signature header parentHeader metadata content : Bytes}
      (hsplit : splitDelimiter m.frames =
        some (before, signature :: header :: parentHeader :: metadata :: content :: buffers))
      (h : (L.auth.verifyImpl m.behind signature [header, parentHeader, metadata, content]).1 = true) :
      Passes m
  | shortForm {before rest : List Bytes} {signature content : Bytes}
      (hsplit : splitDelimiter m.frames = some (before, signature :: content :: rest))
      (hshort : rest.length < 3) (h : (L.auth.verifyImpl m.behind signature [content]).1 = true) :
      Passes m

/-- A delimiter, and fewer than five frames behind it; a signature that passes and is none is
refused for what it is of. -/
def Harmless (m : Received) : Prop :=
  (∃ before after, splitDelimiter m.frames = some (before, after) ∧ after.length < 5 ∧
    ¬Passes L m) ∨
  (Passes L m ∧ ∃ answers, register L expectedKernelId m = .refused answers)

/-- The wait gets to a message. -/
def Reaches (arrivals : List Arrival) (m : Received) : Prop :=
  ∃ before after, arrivals = before ++ .message m :: after ∧
    waitForConfiguration L expectedKernelId before = .waiting

end

/-! ## What is taken -/

section Read

variable {L : Listener} {m : Received}

theorem isLong_iff {frames : List Bytes} :
    isLong frames = true ↔ ∃ before signature header parentHeader metadata content buffers,
      splitDelimiter frames =
        some (before, signature :: header :: parentHeader :: metadata :: content :: buffers) := by
  unfold isLong
  cases splitDelimiter frames with
  | none => simp
  | some split =>
    obtain ⟨before, after⟩ := split
    simp only [decide_eq_true_eq, Option.some.injEq, Prod.mk.injEq]
    constructor
    · intro h
      match after, h with
      | signature :: header :: parentHeader :: metadata :: content :: buffers, _ =>
        exact ⟨before, signature, header, parentHeader, metadata, content, buffers, rfl, rfl⟩
    · rintro ⟨_, signature, header, parentHeader, metadata, content, buffers, -, rfl⟩
      simp

/-- The JEP 66 form, frame by frame. -/
theorem readJep66Handshake_split {before : List Bytes} {signature header parentHeader metadata content : Bytes}
    {buffers : List Bytes} (hsplit : splitDelimiter m.frames =
      some (before, signature :: header :: parentHeader :: metadata :: content :: buffers)) :
    readJep66Handshake L m =
      if (L.auth.verifyImpl m.behind signature [header, parentHeader, metadata, content]).1 = false then
        .error (.runtime "Rejected a kernel's handshake: ERROR: Signatures don't match")
      else do
        let msgType ← valueString (L.parse header) "msg_type"
        if msgType ≠ "handshake_request" then
          return none
        let ports ← readPorts (portAt L (L.parse content))
        let _ ← valueString (L.parse header) "session"
        return some { ports } := by
  have hlong : isLong m.frames = true := isLong_iff.mpr ⟨_, _, _, _, _, _, _, hsplit⟩
  have hread : Wire.deserialize (L.auth.codec L.parse m.behind) false m.frames =
      (if (L.auth.verifyImpl m.behind signature [header, parentHeader, metadata, content]).1 = false then
        .error (.runtime "ERROR: Signatures don't match")
      else .ok (Wire.readMessage (L.auth.codec L.parse m.behind) false header parentHeader metadata
        content buffers)) >>= fun base => .ok ⟨before, base⟩ := by
    simp only [Wire.deserialize, Wire.deserializeZmqId, hsplit, ok_bind]
    rfl
  rw [readJep66Handshake, hlong, if_neg (by simp)]
  split
  · next h => simp only [hread, h, if_true]; rfl
  · next h => simp only [hread, h]; rfl

theorem bind_eq_ok {α β : Type} {x : Except Exception α} {f : α → Except Exception β} {b : β} :
    (x >>= f) = .ok b ↔ ∃ a, x = .ok a ∧ f a = .ok b := by
  cases x with
  | error e => simp
  | ok a => simp

theorem readJep66Handshake_eq_some_iff {config : KernelConfiguration} :
    readJep66Handshake L m = .ok (some config) ↔
      ∃ signature parts content ports, IsHandshake L m signature parts content ports ∧
        config = { ports } := by
  constructor
  · intro h
    cases hlong : isLong m.frames with
    | false =>
      rw [readJep66Handshake, hlong, if_pos rfl] at h
      cases h
    | true =>
      obtain ⟨before, signature, header, parentHeader, metadata, content, buffers, hsplit⟩ :=
        isLong_iff.mp hlong
      rw [readJep66Handshake_split hsplit] at h
      split at h
      · cases h
      · next hpasses =>
        obtain ⟨msgType, htype, h⟩ := bind_eq_ok.mp h
        split at h
        · cases h
        · next hrequest =>
          obtain ⟨ports, hports, h⟩ := bind_eq_ok.mp h
          obtain ⟨session, hsession, h⟩ := bind_eq_ok.mp h
          cases h
          refine ⟨signature, _, _, ports, ⟨⟨before, header, parentHeader, metadata, content, buffers,
            hsplit, rfl, ?_, ⟨session, hsession⟩, rfl⟩, by simpa using hpasses, hports⟩, rfl⟩
          rw [htype, not_not.mp hrequest]
  · rintro ⟨signature, parts, content, ports, ⟨⟨before, header, parentHeader, metadata, contentFrame,
      buffers, hsplit, rfl, htype, ⟨session, hsession⟩, rfl⟩, hpasses, hports⟩, rfl⟩
    rw [readJep66Handshake_split hsplit, if_neg (by simp [hpasses]), htype, ok_bind, if_neg (by simp),
      hports, ok_bind, hsession]
    rfl

end Read

section Register

variable {L : Listener} {expectedKernelId : String} {m : Received}

theorem readSigned_eq_taken_iff {j : Json} {config : KernelConfiguration} {answer : Answer} :
    readSigned expectedKernelId j = .ok (.taken config answer) ↔
      j.isObject = true ∧ valueString j "kernel_id" = .ok config.kernelId ∧
        (expectedKernelId = "" ∨ config.kernelId = expectedKernelId) ∧
        readPorts (portOf j) = .ok config.ports ∧ answer = .ack := by
  unfold readSigned
  cases hobject : j.isObject with
  | false => simp [refuse, pure, Except.pure]
  | true =>
    simp only [Bool.true_eq_false, if_false, true_and]
    rw [bind_eq_ok]
    constructor
    · rintro ⟨kernelId, hkernelId, h⟩
      split at h
      · cases h
      · next hexpected =>
        obtain ⟨ports, hports, h⟩ := bind_eq_ok.mp h
        cases h
        refine ⟨hkernelId, ?_, hports, rfl⟩
        by_cases hempty : expectedKernelId = ""
        · exact .inl hempty
        · exact .inr (by_contra fun hother => hexpected ⟨hempty, hother⟩)
    · rintro ⟨hkernelId, hexpected, hports, rfl⟩
      refine ⟨config.kernelId, hkernelId, ?_⟩
      rw [if_neg (by rintro ⟨hempty, hother⟩; exact hexpected.elim hempty hother), hports]
      rfl

theorem readShortForm_eq_taken_iff {config : KernelConfiguration} {answer : Answer} :
    readShortForm L expectedKernelId m = .ok (.taken config answer) ↔
      ∃ ids signature content rest, splitDelimiter m.frames = some (ids, signature :: content :: rest) ∧
        (L.auth.verifyImpl m.behind signature [content]).1 = true ∧
        readSigned expectedKernelId (L.parse content) = .ok (.taken config answer) := by
  unfold readShortForm Wire.deserializeZmqId
  cases hsplit : splitDelimiter m.frames with
  | none => simp
  | some split =>
    obtain ⟨ids, after⟩ := split
    simp only [ok_bind, Option.some.injEq, Prod.mk.injEq]
    constructor
    · intro h
      split at h
      · next signature content rest =>
        split at h
        · cases h
        · next hpasses => exact ⟨ids, signature, content, rest, ⟨rfl, rfl⟩, by simpa using hpasses, h⟩
      · cases h
    · rintro ⟨_, signature, content, rest, ⟨-, rfl⟩, hpasses, h⟩
      simp only [hpasses, Bool.true_eq_false, if_false]
      exact h

/-- **What is taken**: a `handshake_request`, or the short form under the id. -/
theorem register_eq_taken_iff {config : KernelConfiguration} :
    (∃ answer, register L expectedKernelId m = .taken config answer) ↔
      (∃ signature parts content ports, IsHandshake L m signature parts content ports ∧
        config = { ports }) ∨
      ∃ signature content, IsShortForm L m signature content config ∧
        (expectedKernelId = "" ∨ config.kernelId = expectedKernelId) := by
  rw [← readJep66Handshake_eq_some_iff]
  unfold register
  cases hjep66 : readJep66Handshake L m with
  | error e =>
    refine iff_of_false (by simp) ?_
    rintro (h | ⟨signature, content, h, -⟩)
    · cases h
    · rw [h.other] at hjep66
      cases hjep66
  | ok jep66 =>
    cases jep66 with
    | some config' =>
      simp only [ok_bind]
      constructor
      · rintro ⟨answer, h⟩
        cases h
        exact .inl rfl
      · rintro (h | ⟨signature, content, h, -⟩)
        · cases h
          exact ⟨_, rfl⟩
        · rw [h.other] at hjep66
          cases hjep66
    | none =>
      simp only [ok_bind, Except.ok.injEq, reduceCtorEq, false_or]
      constructor
      · rintro ⟨answer, h⟩
        cases hshort : readShortForm L expectedKernelId m with
        | error e => rw [hshort] at h; cases h
        | ok verdict =>
          rw [hshort] at h
          obtain rfl : verdict = .taken config answer := h
          obtain ⟨ids, signature, content, rest, hsplit, hpasses, hsigned⟩ :=
            readShortForm_eq_taken_iff.mp hshort
          obtain ⟨hobject, hkernelId, hexpected, hports, -⟩ := readSigned_eq_taken_iff.mp hsigned
          exact ⟨signature, content,
            ⟨hjep66, ⟨ids, rest, hsplit⟩, hpasses, hobject, hkernelId, hports⟩, hexpected⟩
      · rintro ⟨signature, content, ⟨-, ⟨ids, rest, hsplit⟩, hpasses, hobject, hkernelId, hports⟩,
          hexpected⟩
        refine ⟨.ack, ?_⟩
        rw [readShortForm_eq_taken_iff.mpr ⟨ids, signature, content, rest, hsplit, hpasses,
          readSigned_eq_taken_iff.mpr ⟨hobject, hkernelId, hexpected, hports, rfl⟩⟩]

end Register

/-! ## The wait -/

section Wait

variable {L : Listener} {expectedKernelId : String}

theorem waitForConfiguration_append {before : List Arrival}
    (h : waitForConfiguration L expectedKernelId before = .waiting) (after : List Arrival) :
    waitForConfiguration L expectedKernelId (before ++ after) =
      waitForConfiguration L expectedKernelId after := by
  induction before with
  | nil => rfl
  | cons arrival before ih =>
    cases arrival with
    | quiet shouldAbort late =>
      rw [waitForConfiguration] at h
      rw [List.cons_append, waitForConfiguration]
      split at h
      · cases h
      · split at h
        · cases h
        · next habort hlate => rw [if_neg habort, if_neg hlate, ih h]
    | message m =>
      rw [waitForConfiguration] at h
      rw [List.cons_append, waitForConfiguration]
      split at h
      · next answers hrefused => rw [ih h]
      · cases h
      · cases h

/-- What is returned is the first message that is taken, and the wait has got to it. -/
theorem waitForConfiguration_returned {arrivals : List Arrival} {config : KernelConfiguration}
    {m : Received} (h : waitForConfiguration L expectedKernelId arrivals = .returned config m) :
    Reaches L expectedKernelId arrivals m ∧
      ∃ answer, register L expectedKernelId m = .taken config answer := by
  induction arrivals with
  | nil => cases h
  | cons arrival arrivals ih =>
    cases arrival with
    | quiet shouldAbort late =>
      rw [waitForConfiguration] at h
      split at h
      · cases h
      · split at h
        · cases h
        · next habort hlate =>
          obtain ⟨⟨before, after, rfl, hbefore⟩, htaken⟩ := ih h
          refine ⟨⟨.quiet shouldAbort late :: before, after, rfl, ?_⟩, htaken⟩
          rw [waitForConfiguration, if_neg habort, if_neg hlate, hbefore]
    | message m' =>
      rw [waitForConfiguration] at h
      split at h
      · next answers hrefused =>
        obtain ⟨⟨before, after, rfl, hbefore⟩, htaken⟩ := ih h
        refine ⟨⟨.message m' :: before, after, rfl, ?_⟩, htaken⟩
        rw [waitForConfiguration, hrefused, hbefore]
      · next config' answer htaken =>
        cases h
        exact ⟨⟨[], arrivals, rfl, rfl⟩, answer, htaken⟩
      · cases h

theorem waitForConfiguration_reaches {arrivals : List Arrival} {config : KernelConfiguration}
    {m : Received} {answer : Answer} (h : Reaches L expectedKernelId arrivals m)
    (htaken : register L expectedKernelId m = .taken config answer) :
    waitForConfiguration L expectedKernelId arrivals = .returned config m := by
  obtain ⟨before, after, rfl, hbefore⟩ := h
  rw [waitForConfiguration_append hbefore, waitForConfiguration, htaken]

end Wait

/-! ## Soundness -/

section Soundness

variable {L : Listener} {expectedKernelId : String}

theorem names_of_kernelId {j : Json} (hexpected : expectedKernelId ≠ "")
    (h : valueString j "kernel_id" = .ok expectedKernelId) : Names expectedKernelId j := by
  unfold valueString at h
  cases hvalue : j.valueString "kernel_id" "" with
  | error e => rw [hvalue] at h; cases h
  | ok kernelId =>
    rw [hvalue] at h
    obtain rfl : kernelId = expectedKernelId := Except.ok.inj h
    exact .inr (Json.get_of_valueString hvalue hexpected)

theorem IsHandshake.unique {m : Received} {signature signature' : Bytes} {parts parts' : List Bytes}
    {content content' : Json} {ports ports' : Ports}
    (h : IsHandshake L m signature parts content ports)
    (h' : IsHandshake L m signature' parts' content' ports') :
    signature = signature' ∧ parts = parts' ∧ content = content' := by
  obtain ⟨before, header, parentHeader, metadata, contentFrame, buffers, hsplit, rfl, -, -, rfl⟩ :=
    h.frames
  obtain ⟨_, _, _, _, _, _, hsplit', rfl, -, -, rfl⟩ := h'.frames
  rw [hsplit] at hsplit'
  simp only [Option.some.injEq, Prod.mk.injEq, List.cons.injEq] at hsplit'
  obtain ⟨-, rfl, rfl, rfl, rfl, rfl, -⟩ := hsplit'
  exact ⟨rfl, rfl, rfl⟩

theorem IsShortForm.unique {m : Received} {signature signature' content content' : Bytes}
    {config config' : KernelConfiguration} (h : IsShortForm L m signature content config)
    (h' : IsShortForm L m signature' content' config') :
    signature = signature' ∧ content = content' := by
  obtain ⟨ids, rest, hsplit⟩ := h.frames
  obtain ⟨_, _, hsplit'⟩ := h'.frames
  rw [hsplit] at hsplit'
  simp only [Option.some.injEq, Prod.mk.injEq, List.cons.injEq] at hsplit'
  exact ⟨hsplit'.2.1, hsplit'.2.2.1⟩

/-- A message has one form. -/
theorem IsHandshake.not_shortForm {m : Received} {signature signature' content' : Bytes}
    {parts : List Bytes} {content : Json} {ports : Ports} {config : KernelConfiguration}
    (h : IsHandshake L m signature parts content ports)
    (h' : IsShortForm L m signature' content' config) : False := by
  have hsome := readJep66Handshake_eq_some_iff.mpr ⟨signature, parts, content, ports, h, rfl⟩
  rw [h'.other] at hsome
  cases hsome

theorem Genuine.handshake_proper {m : Received} {signature : Bytes} {parts : List Bytes}
    {content : Json} {ports : Ports} {config : KernelConfiguration}
    (h : Genuine L expectedKernelId m config) (hform : IsHandshake L m signature parts content ports) :
    Names expectedKernelId content ∧ signature = L.auth.sign parts := by
  cases h with
  | handshake h hsigned hnames =>
    obtain ⟨rfl, rfl, rfl⟩ := h.unique hform
    exact ⟨hnames, hsigned⟩
  | shortForm h => exact (hform.not_shortForm h).elim

theorem Genuine.shortForm_signed {m : Received} {signature content : Bytes}
    {config config' : KernelConfiguration} (h : Genuine L expectedKernelId m config)
    (hform : IsShortForm L m signature content config') : signature = L.auth.sign [content] := by
  cases h with
  | handshake h => exact (h.not_shortForm hform).elim
  | shortForm h hsigned =>
    obtain ⟨rfl, rfl⟩ := h.unique hform
    exact hsigned

/-- **Registration is sound where the wait gets to nothing strange.** Just then what it returns is
in a message of the kernel that it is for, signed with the key. -/
theorem registration_sound_iff (L : Listener) {expectedKernelId : String}
    (hexpected : expectedKernelId ≠ "") (arrivals : List Arrival) :
    Sound L expectedKernelId arrivals ↔
      ∀ m, Reaches L expectedKernelId arrivals m → ¬Strange L expectedKernelId m := by
  constructor
  · intro hsound m hreaches hstrange
    cases hstrange with
    | @handshake signature parts content ports h hstrange =>
      obtain ⟨answer, htaken⟩ := register_eq_taken_iff.mpr
        (.inl ⟨signature, parts, content, ports, h, rfl⟩)
      obtain ⟨hnames, hsigned⟩ :=
        (hsound _ m (waitForConfiguration_reaches hreaches htaken)).handshake_proper h
      exact hstrange.elim (· hnames) (· hsigned)
    | @shortForm signature content config h hid hstrange =>
      obtain ⟨answer, htaken⟩ := register_eq_taken_iff.mpr
        (.inr ⟨signature, content, h, .inr hid⟩)
      exact hstrange ((hsound _ m (waitForConfiguration_reaches hreaches htaken)).shortForm_signed h)
  · intro h config m hreturned
    obtain ⟨hreaches, htaken⟩ := waitForConfiguration_returned hreturned
    have hplain := h m hreaches
    rcases register_eq_taken_iff.mp htaken with ⟨signature, parts, content, ports, hhandshake, rfl⟩ |
      ⟨signature, content, hshort, hid⟩
    · have hnames : Names expectedKernelId content :=
        by_contra fun hnot => hplain (.handshake hhandshake (.inl hnot))
      have hsigned : signature = L.auth.sign parts :=
        by_contra fun hnot => hplain (.handshake hhandshake (.inr hnot))
      exact .handshake hhandshake hsigned hnames
    · have hid := hid.resolve_left hexpected
      have hsigned : signature = L.auth.sign [content] :=
        by_contra fun hnot => hplain (.shortForm hshort hid hnot)
      exact .shortForm hshort hsigned (names_of_kernelId hexpected (by rw [hshort.kernelId, hid]))

end Soundness

/-! ## Robustness -/

section Robustness

variable {L : Listener} {expectedKernelId : String} {m : Received}

theorem Genuine.taken {config : KernelConfiguration} (h : Genuine L expectedKernelId m config) :
    ∃ answer, register L expectedKernelId m = .taken config answer := by
  refine register_eq_taken_iff.mpr ?_
  cases h with
  | handshake h => exact .inl ⟨_, _, _, _, h, rfl⟩
  | @shortForm signature content config h hsigned hnames =>
    refine .inr ⟨_, _, h, hnames.imp id fun hnames => ?_⟩
    have hvalue := Json.valueString_of_get "" h.object hnames
    have hkernelId := h.kernelId
    rw [valueString, hvalue] at hkernelId
    exact (Except.ok.inj hkernelId).symm

theorem readJep66Handshake_short {before after : List Bytes}
    (hsplit : splitDelimiter m.frames = some (before, after)) (hshort : after.length < 5) :
    readJep66Handshake L m = .ok none := by
  have hlong : isLong m.frames = false := by
    simp only [isLong, hsplit, decide_eq_false_iff_not]
    exact Nat.not_le_of_lt hshort
  rw [readJep66Handshake, hlong, if_pos rfl]
  rfl

/-- **What is refused** of the messages whose signature does not pass: those that have a delimiter
and are no Jupyter messages. -/
theorem refused_iff (hpasses : ¬Passes L m) :
    (∃ answers, register L expectedKernelId m = .refused answers) ↔
      ∃ before after, splitDelimiter m.frames = some (before, after) ∧ after.length < 5 := by
  constructor
  · rintro ⟨answers, hrefused⟩
    cases hsplit : splitDelimiter m.frames with
    | none =>
      -- without a delimiter, the short form throws
      have hlong : isLong m.frames = false := by simp only [isLong, hsplit]
      simp only [register, readJep66Handshake, hlong, if_true, pure, Except.pure, ok_bind, readShortForm,
        Wire.deserializeZmqId, hsplit, error_bind] at hrefused
      cases hrefused
    | some split =>
      obtain ⟨before, after⟩ := split
      refine ⟨before, after, rfl, Nat.lt_of_not_le fun hlong => ?_⟩
      obtain ⟨_, signature, header, parentHeader, metadata, content, buffers, hlong⟩ :=
        isLong_iff.mp (show isLong m.frames = true by simp only [isLong, hsplit, decide_eq_true hlong])
      -- five frames are read as a Jupyter message, which throws
      have hverify : (L.auth.verifyImpl m.behind signature
          [header, parentHeader, metadata, content]).1 = false := by
        simpa using fun h => hpasses (.handshake hlong h)
      rw [register, readJep66Handshake_split hlong, if_pos hverify] at hrefused
      cases hrefused
  · rintro ⟨before, after, hsplit, hshort⟩
    rw [register, readJep66Handshake_short hsplit hshort, ok_bind, readShortForm,
      Wire.deserializeZmqId, hsplit, ok_bind]
    match after, hshort, hsplit with
    | [], _, _ => exact ⟨_, rfl⟩
    | [_], _, _ => exact ⟨_, rfl⟩
    | signature :: content :: rest, hshort, hsplit =>
      have hverify : (L.auth.verifyImpl m.behind signature [content]).1 = false := by
        have hrest : rest.length < 3 := by
          simp only [List.length_cons] at hshort
          omega
        simpa using fun h => hpasses (.shortForm hsplit hrest h)
      simp only [hverify, if_true]
      exact ⟨_, rfl⟩

theorem harmless_iff : Harmless L expectedKernelId m ↔
    ∃ answers, register L expectedKernelId m = .refused answers := by
  by_cases hpasses : Passes L m
  · constructor
    · rintro (⟨_, _, -, -, hnot⟩ | ⟨-, hrefused⟩)
      · exact absurd hpasses hnot
      · exact hrefused
    · exact fun hrefused => .inr ⟨hpasses, hrefused⟩
  · rw [refused_iff hpasses]
    constructor
    · rintro (⟨before, after, hsplit, hshort, -⟩ | ⟨h, -⟩)
      · exact ⟨before, after, hsplit, hshort⟩
      · exact absurd h hpasses
    · rintro ⟨before, after, hsplit, hshort⟩
      exact .inl ⟨before, after, hsplit, hshort, hpasses⟩

theorem waitForConfiguration_noise {noise : List (Noise L)}
    (h : ∀ m, some m ∈ noise → ∃ answers, register L expectedKernelId m.val = .refused answers) :
    waitForConfiguration L expectedKernelId (noise.map Noise.arrival) = .waiting := by
  induction noise with
  | nil => rfl
  | cons arrival noise ih =>
    have hrest := ih fun m hm => h m (List.mem_cons_of_mem _ hm)
    cases arrival with
    | none => exact hrest
    | some m =>
      obtain ⟨answers, hrefused⟩ := h m List.mem_cons_self
      rw [List.map_cons, Noise.arrival, waitForConfiguration, hrefused, hrest]

/-- **Registration is robust against what is harmless.** Just then each message that is not signed
is refused, the wait goes on, and it returns the configuration of the kernel when that registers. -/
theorem registration_robust_iff (L : Listener) (expectedKernelId : String) (noise : List (Noise L)) :
    Robust L expectedKernelId noise ↔ ∀ m, some m ∈ noise → Harmless L expectedKernelId m.val := by
  constructor
  · exact fun h m hm => harmless_iff.mpr (h.refused m hm)
  · intro h
    have hrefused : ∀ m, some m ∈ noise →
        ∃ answers, register L expectedKernelId m.val = .refused answers :=
      fun m hm => harmless_iff.mp (h m hm)
    have hwaits := waitForConfiguration_noise hrefused
    refine ⟨hrefused, hwaits, fun m config hgenuine => ?_⟩
    obtain ⟨answer, htaken⟩ := hgenuine.taken
    rw [waitForConfiguration_append hwaits, waitForConfiguration, htaken]

end Robustness

/-! ## Registrations -/

def handshakeHeader : Json :=
  .object [("msg_type", .string "handshake_request"), ("session", .string "1")]

def portsOf (kernelId : List (String × Json)) : Json :=
  .object (kernelId ++ [("control_port", .string "40100"), ("shell_port", .string "40101"),
    ("stdin_port", .string "40102"), ("iopub_port", .string "40103"), ("hb_port", .string "40104")])

def launch2 : Json := portsOf [("kernel_id", .string "launch-2")]

def text (v : Json) : Bytes := (Json.dump v).map fun c => c.toNat.toUInt8

/-- It reads the JSON of the messages below. -/
def listener : Listener where
  auth := Wire.checksum
  parse bytes := ([handshakeHeader, .object [], portsOf [], launch2].find? fun v =>
    text v = bytes).getD .discarded
  integerText spelling := spelling

def launched : KernelConfiguration := ⟨"launch-2", "40100", "40101", "40102", "40103", "40104"⟩

/-- The registration of the second launch. -/
def own : Received :=
  ⟨[delimiter, listener.auth.sign [text launch2], text launch2], fun _ => 0⟩

def handshakeParts : List Bytes :=
  [text handshakeHeader, text (.object []), text (.object []), text (portsOf [])]

/-- A handshake of a launch before, under a signature. -/
def handshakeUnder (signature : Bytes) : Received :=
  ⟨delimiter :: signature :: handshakeParts, fun _ => 0⟩

theorem splitDelimiter_delimiter (after : List Bytes) :
    splitDelimiter (delimiter :: after) = some ([], after) := by
  rw [Wire.splitDelimiter, if_pos rfl]

theorem own_shortForm : IsShortForm listener own (listener.auth.sign [text launch2]) (text launch2)
    launched where
  other := readJep66Handshake_short (splitDelimiter_delimiter _) (by decide)
  frames := ⟨[], [], splitDelimiter_delimiter _⟩
  passes := Wire.verifyImpl_sign
  object := by decide +kernel
  kernelId := by decide +kernel
  ports := by decide +kernel

theorem own_not_strange : ¬Strange listener "launch-2" own := by
  intro h
  cases h with
  | handshake h => exact h.not_shortForm own_shortForm
  | shortForm h hid hstrange =>
    obtain ⟨rfl, rfl⟩ := h.unique own_shortForm
    exact hstrange rfl

theorem registration_sound_own : Sound listener "launch-2" [.quiet false false, .message own] := by
  refine (registration_sound_iff listener (by decide) _).mpr ?_
  rintro m ⟨before, after, heq, -⟩
  have hmem : .message m ∈ [Arrival.quiet false false, .message own] := by
    rw [heq]
    exact List.mem_append_right _ List.mem_cons_self
  obtain rfl : m = own := by simpa using hmem
  exact own_not_strange

theorem handshakeUnder_isHandshake : IsHandshake listener
    (handshakeUnder (listener.auth.sign handshakeParts)) (listener.auth.sign handshakeParts)
    handshakeParts (portsOf []) launched.ports where
  frames := ⟨[], text handshakeHeader, text (.object []), text (.object []), text (portsOf []), [],
    splitDelimiter_delimiter _, rfl, by decide +kernel, ⟨"1", by decide +kernel⟩, rfl⟩
  passes := Wire.verifyImpl_sign
  ports := by decide +kernel

/-- A signed handshake that names no kernel is taken for the second launch's. -/
theorem foreign_handshake_taken :
    waitForConfiguration listener "launch-2"
        [.message (handshakeUnder (listener.auth.sign handshakeParts)), .message own] =
      .returned { ports := launched.ports } (handshakeUnder (listener.auth.sign handshakeParts)) ∧
    ¬Sound listener "launch-2"
      [.message (handshakeUnder (listener.auth.sign handshakeParts)), .message own] := by
  obtain ⟨answer, htaken⟩ := (@register_eq_taken_iff _ "launch-2" _ _).mpr
    (.inl ⟨_, _, _, _, handshakeUnder_isHandshake, rfl⟩)
  have hreaches : Reaches listener "launch-2"
      [.message (handshakeUnder (listener.auth.sign handshakeParts)), .message own]
      (handshakeUnder (listener.auth.sign handshakeParts)) := ⟨[], _, rfl, rfl⟩
  have hreturned := waitForConfiguration_reaches hreaches htaken
  refine ⟨hreturned, fun hsound => ?_⟩
  rcases (hsound _ _ hreturned).handshake_proper handshakeUnder_isHandshake with ⟨hempty | hnames, -⟩
  · exact absurd hempty (by decide)
  · cases hnames

/-- One frame, and no delimiter. -/
def garbage : { m : Received // Unsigned listener m } where
  val := ⟨[[1]], fun _ => 0⟩
  property _ _ _ hsplit := by cases hsplit

/-- A handshake under an empty signature. -/
def forged : { m : Received // Unsigned listener m } where
  val := handshakeUnder []
  property _ _ _ hsplit := by
    rw [handshakeUnder, splitDelimiter_delimiter] at hsplit
    cases hsplit
    refine ⟨fun content rest h => ?_, fun header parentHeader metadata content buffers h => ?_⟩
    · cases h
      decide +kernel
    · cases h
      decide +kernel

theorem garbage_not_harmless : ¬Harmless listener "launch-2" garbage.val := by
  rintro (⟨before, after, hsplit, -, -⟩ | ⟨hpasses, -⟩)
  · cases hsplit
  · cases hpasses with
    | handshake hsplit => cases hsplit
    | shortForm hsplit => cases hsplit

theorem forged_not_harmless : ¬Harmless listener "launch-2" forged.val := by
  rintro (⟨before, after, hsplit, hshort, -⟩ | ⟨hpasses, -⟩)
  · rw [show splitDelimiter forged.val.frames = _ from splitDelimiter_delimiter _] at hsplit
    cases hsplit
    exact absurd hshort (by decide)
  · cases hpasses with
    | handshake hsplit h =>
      rw [show splitDelimiter forged.val.frames = _ from splitDelimiter_delimiter _] at hsplit
      cases hsplit
      exact absurd h (by decide +kernel)
    | shortForm hsplit hshort =>
      rw [show splitDelimiter forged.val.frames = _ from splitDelimiter_delimiter _] at hsplit
      cases hsplit
      exact absurd hshort (by decide)

/-- A frame without a delimiter ends the wait, and so does a Jupyter message that is not signed. -/
theorem unsigned_ends_wait :
    ¬Robust listener "launch-2" [some garbage] ∧ ¬Robust listener "launch-2" [some forged] :=
  ⟨fun h => garbage_not_harmless (harmless_iff.mpr (h.refused garbage List.mem_cons_self)),
    fun h => forged_not_harmless (harmless_iff.mpr (h.refused forged List.mem_cons_self))⟩

end Jovian.Registration
