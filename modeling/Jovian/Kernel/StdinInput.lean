import Jovian.Lib.Transition
import Jovian.Wire.RoundTrip

/-!
# Jovian — input for a kernel's code (`blockingInputRequest`, `sendStdin`)

Code that asks for input sends an `input_request` and takes the next message of its stdin socket
for the answer. The socket keeps what comes while nobody reads it, and a reply says nothing of the
request it is for: a reply that came before the prompt is its answer. A message that cannot be read
is one too; the input is then empty.

* **`input_answers_prompt`** — what a call returns is in a reply to it (`Sound`), where nothing
  waits in front of it (`orderly`).
-/

namespace Jovian.Stdin

open Utf8 (Bytes)
open Wire (OpensslAuthentication Connection splitDelimiter)

/-! ## Replies -/

/-- A message on its way to the stdin socket, and what lies in memory behind its signature. -/
structure Reply where
  frames : List Bytes
  behind : Nat → UInt8

/-- The kernel: its key, and `json::parse`. -/
structure Kernel where
  auth : OpensslAuthentication
  parse : Bytes → Json

variable (K : Kernel)

/-- `ServerZmqImpl::sendStdin`, once a message has come; what cannot be read is nothing. -/
def readReply (r : Reply) : Option Wire.Message :=
  match Wire.deserialize (K.auth.codec K.parse r.behind) false r.frames with
  | .ok m => some m
  | .error _ => none

/-- `KernelCore::dispatchStdin`: what is given to the input handler, if anything is. -/
def dispatchStdin (r : Reply) (m : Wire.Message) : Option String :=
  match (m.base.content (K.auth.codec K.parse r.behind)).valueString "value" "" with
  | .ok value => some value
  | .error _ => none

/-- What a message makes of a call's value. -/
def inputValue (r : Reply) : Option String := do
  let m ← readReply K r
  dispatchStdin K r m

/-- What a reply says that is signed with the key. -/
def signedValue (r : Reply) : Option String :=
  match splitDelimiter r.frames with
  | some (_, signature :: header :: parentHeader :: metadata :: content :: _) =>
    if signature = K.auth.sign [header, parentHeader, metadata, content] then
      match (K.parse content).valueString "value" "" with
      | .ok value => some value
      | .error _ => none
    else none
  | _ => none

def clientId : Bytes := "client_id".toUTF8.toList

/-- `SessionRegistry::sendInputReply`, of a session with a client. -/
def sendInputReply (k : Connection) (header : Json) (value : String) :
    Except Json.Error (List Bytes) :=
  k.serialize ⟨[clientId],
    { header := header, parentHeader := .object [], metadata := .object []
      stored := .object [("value", .string value)], buffers := [] }⟩

/-! ## The socket and the calls -/

/-- A message that has come: how many came before it, and how many prompts had been sent when it
was sent. -/
structure Arrived where
  number : Nat
  reply : Reply
  prompts : Nat

/-- A call that has returned: which prompt was its, its value, and the message it took. -/
structure Returned where
  prompt : Nat
  value : String
  taken : Arrived

structure State where
  /-- How many `input_request`s were sent. -/
  prompts : Nat := 0
  /-- Messages under way, each with how many prompts had been sent before it. -/
  inFlight : List (Reply × Nat) := []
  /-- How many messages have come. -/
  arrived : Nat := 0
  /-- What the socket keeps. -/
  queue : List Arrived := []
  /-- The call that waits, by its prompt. -/
  call : Option Nat := none
  /-- `m_inputReplyHandler`: whose value it writes. -/
  handler : Option Nat := none
  returned : List Returned := []

inductive Event where
  /-- The code asks for input. -/
  | input (allowStdin serializes : Bool)
  /-- Somebody sends a message to the stdin socket, at any time. -/
  | send (r : Reply)
  | arrive (i : Nat)
  | receive
  /-- A signal ends `recv`, with an exception. -/
  | interrupted

variable {K}

/-- `blockingInputRequest`, up to `recv`. -/
def blockingInputRequest (allowStdin serializes : Bool) (s : State) : State :=
  if allowStdin = false then s
  else
    let s := { s with handler := some (s.prompts + 1) }
    if serializes = false then s
    else { s with prompts := s.prompts + 1, call := some (s.prompts + 1) }

def arrive (i : Nat) (s : State) : State :=
  match s.inFlight[i]? with
  | none => s
  | some (r, prompts) =>
    { s with
      inFlight := s.inFlight.eraseIdx i
      arrived := s.arrived + 1
      queue := s.queue ++ [⟨s.arrived, r, prompts⟩] }

variable (K) in
/-- `recv`, and the rest of `blockingInputRequest`. -/
def receive (s : State) : State :=
  match s.call, s.queue with
  | some prompt, arrived :: queue =>
    let value := if s.handler = some prompt then (inputValue K arrived.reply).getD "" else ""
    { s with
      queue := queue, call := none, handler := none
      returned := s.returned ++ [⟨prompt, value, arrived⟩] }
  | _, _ => s

variable (K) in
def step (s : State) : Event → State
  | .input allowStdin serializes =>
    if s.call.isNone then blockingInputRequest allowStdin serializes s else s
  | .send r => { s with inFlight := s.inFlight ++ [(r, s.prompts)] }
  | .arrive i => arrive i s
  | .receive => receive K s
  | .interrupted => { s with call := none }

variable (K) in
def system : Transition.System State Event :=
  .ofFn {} (step K)

/-! ## The property -/

variable (K) in
/-- **An input reply belongs to its prompt.** -/
structure Sound (s : State) : Prop where
  /-- What is returned is said in a reply, signed, that was sent behind the prompt. -/
  reply : ∀ r ∈ s.returned, signedValue K r.taken.reply = some r.value ∧ r.prompt ≤ r.taken.prompts
  /-- A reply answers one call at most. -/
  once : (s.returned.map (·.taken.number)).Nodup

variable (K) in
/-- Nothing waits in front of a call's answer: a prompt is sent while nothing is queued, and what
comes first then is signed, and was sent behind the prompt. -/
def orderly (s : State) : Event → Bool
  | .input allowStdin serializes =>
    s.call.isSome || !allowStdin || !serializes || s.queue.isEmpty
  | .arrive i =>
    match s.call, s.inFlight[i]? with
    | some prompt, some (r, prompts) =>
      !s.queue.isEmpty || ((signedValue K r).isSome && decide (prompt ≤ prompts))
    | _, _ => true
  | _ => true

/-! ## What is read -/

/-- A reply that is signed is read for what it says. -/
theorem inputValue_of_signedValue {r : Reply} {value : String} (h : signedValue K r = some value) :
    inputValue K r = some value := by
  unfold signedValue at h
  split at h
  · next before signature header parentHeader metadata content buffers hsplit =>
    split at h
    · next hsigned =>
      have hread : readReply K r = some ⟨before, Wire.readMessage (K.auth.codec K.parse r.behind) false
          header parentHeader metadata content buffers⟩ := by
        have hverify : (K.auth.codec K.parse r.behind).verify signature header parentHeader metadata
            content = true := by
          rw [hsigned]
          exact Wire.verifyImpl_sign
        have hok : Wire.deserialize (K.auth.codec K.parse r.behind) false r.frames = .ok ⟨before,
            Wire.readMessage (K.auth.codec K.parse r.behind) false header parentHeader metadata
              content buffers⟩ := Wire.deserialize_ok_iff.mpr
          ⟨header, parentHeader, metadata, content, buffers, ⟨signature, hsplit, hverify⟩, rfl⟩
        rw [readReply, hok]
      rw [inputValue, hread]
      exact h
    · cases h
  · cases h

/-- What the supervisor sends is a reply, signed, with its value. -/
theorem sendInputReply_signed (k : Connection) {header : Json} {value : String}
    (hheader : k.json.Valid header) (hempty : k.json.Valid (.object []))
    (hvalue : k.json.Valid (.object [("value", .string value)])) :
    ∃ frames, sendInputReply k header value = .ok frames ∧
      ∀ behind, signedValue ⟨k.auth, k.json.parse⟩ ⟨frames, behind⟩ = some value := by
  obtain ⟨-, headerText, hheader⟩ := hheader
  obtain ⟨-, emptyText, hempty⟩ := hempty
  obtain ⟨hdiscarded, valueText, hvalue⟩ := hvalue
  have hparse := k.json.parse_dump _ _ hdiscarded hvalue
  refine ⟨[clientId] ++ Wire.delimiter ::
    k.auth.sign [headerText, emptyText, emptyText, valueText] :: headerText :: emptyText ::
      emptyText :: valueText :: [], ?_, fun behind => ?_⟩
  · have hcontent : k.json.dump (Json.object [("value", .string value)]) = .ok valueText := hvalue
    simp only [sendInputReply, Connection.serialize, Connection.serializeMessageBase,
      Wire.MessageBase.content, hheader, hempty, ok_bind, Bool.false_eq_true, if_false, hcontent,
      Connection.serializeZmqId, List.append_assoc]
    rfl
  · have hid : ∀ id ∈ [clientId], id ≠ Wire.delimiter := by decide +kernel
    rw [signedValue, Wire.splitDelimiter_append hid]
    simp only [if_true, hparse]
    rfl

/-! ## The invariant -/

variable (K) in
structure Orderly (s : State) : Prop where
  reply : ∀ r ∈ s.returned, signedValue K r.taken.reply = some r.value ∧ r.prompt ≤ r.taken.prompts
  /-- Each message was taken, or is queued, in the order in which they came. -/
  numbers : s.returned.map (·.taken.number) ++ s.queue.map (·.number) = List.range s.arrived
  /-- What is first in the queue answers the call that waits. -/
  first : ∀ prompt, s.call = some prompt → ∀ a ∈ s.queue.head?,
    (signedValue K a.reply).isSome = true ∧ prompt ≤ a.prompts
  handler : ∀ prompt, s.call = some prompt → s.handler = some prompt

theorem orderly_init : Orderly K {} where
  reply r hr := by cases hr
  numbers := rfl
  first prompt h := by cases h
  handler prompt h := by cases h

theorem Orderly.input {s : State} {allowStdin serializes : Bool} (h : Orderly K s)
    (hnone : s.call = none) (hempty : (!allowStdin || !serializes || s.queue.isEmpty) = true) :
    Orderly K (blockingInputRequest allowStdin serializes s) := by
  unfold blockingInputRequest
  split
  · exact h
  · next hallowed =>
    split
    · exact ⟨h.reply, h.numbers, h.first, fun prompt hcall => by rw [hnone] at hcall; cases hcall⟩
    · next hserializes =>
      refine ⟨h.reply, h.numbers, fun prompt _ a ha => ?_, fun prompt hcall => hcall⟩
      -- nothing is queued when the prompt is sent
      have hqueue : s.queue = [] := by simpa [hallowed, hserializes] using hempty
      rw [hqueue] at ha
      cases ha

theorem Orderly.arrive {s : State} {i : Nat} (h : Orderly K s)
    (horderly : orderly K s (.arrive i) = true) : Orderly K (arrive i s) := by
  unfold Stdin.arrive
  split
  · exact h
  · next r prompts hflight =>
    refine ⟨h.reply, ?_, fun prompt hcall a ha => ?_, h.handler⟩
    · rw [List.map_append, List.map_singleton, ← List.append_assoc, h.numbers, List.range_succ]
    · cases hqueue : s.queue with
      | cons first queue =>
        rw [hqueue] at ha
        exact h.first prompt hcall a (by rw [hqueue]; exact ha)
      | nil =>
        rw [hqueue] at ha
        obtain rfl : a = ⟨s.arrived, r, prompts⟩ := by simpa [eq_comm] using ha
        simp only [orderly, hflight, show s.call = some prompt from hcall, hqueue, List.isEmpty_nil,
          Bool.not_true, Bool.false_or, Bool.and_eq_true, decide_eq_true_eq] at horderly
        exact horderly

theorem Orderly.receive {s : State} (h : Orderly K s) : Orderly K (receive K s) := by
  unfold Stdin.receive
  split
  · next prompt arrived queue hcall hqueue =>
    obtain ⟨hsigned, hprompt⟩ := h.first prompt hcall arrived (by rw [hqueue]; rfl)
    obtain ⟨value, hvalue⟩ := Option.isSome_iff_exists.mp hsigned
    have hnumbers := h.numbers
    rw [hqueue, List.map_cons] at hnumbers
    refine ⟨fun r hr => ?_, ?_, fun _ hcall => (by cases hcall), fun _ hcall => (by cases hcall)⟩
    · rcases List.mem_append.mp hr with hr | hr
      · exact h.reply r hr
      · rw [List.mem_singleton.mp hr]
        simp only [h.handler prompt hcall, if_true, inputValue_of_signedValue hvalue, Option.getD_some]
        exact ⟨hvalue, hprompt⟩
    · rw [List.map_append, List.map_singleton, List.append_assoc]
      exact hnumbers
  · exact h

theorem Orderly.step {s : State} {e : Event} (h : Orderly K s) (horderly : orderly K s e = true) :
    Orderly K (step K s e) := by
  cases e with
  | input allowStdin serializes =>
    rw [Stdin.step]
    split
    · next hnone =>
      have hnone : s.call = none := Option.isNone_iff_eq_none.mp hnone
      exact h.input hnone (by simpa [orderly, hnone] using horderly)
    · exact h
  | send r => exact ⟨h.reply, h.numbers, h.first, h.handler⟩
  | arrive i => exact h.arrive horderly
  | receive => exact h.receive
  | interrupted =>
    exact ⟨h.reply, h.numbers, fun _ hcall => (by cases hcall), fun _ hcall => (by cases hcall)⟩

theorem Orderly.sound {s : State} (h : Orderly K s) : Sound K s := by
  refine ⟨h.reply, ?_⟩
  have hnodup : (s.returned.map (·.taken.number) ++ s.queue.map (·.number)).Nodup := by
    rw [h.numbers]
    exact List.nodup_range
  exact (List.nodup_append.mp hnodup).1

/-- **An input reply belongs to its prompt where nothing waits in front of it.** In every run in
which a prompt is sent only while nothing is queued, and the message that comes first then is
signed and was sent behind the prompt, each value that a call returns is said in a reply to it, and
no reply answers two. -/
theorem input_answers_prompt {s : State}
    (h : ((system K).when fun s e => orderly K s e = true).Reachable s) : Sound K s := by
  have horderly : Orderly K s :=
    Transition.System.invariant_ofFn orderly_init (fun _ _ hs horderly => hs.step horderly) h
  exact horderly.sound

/-- Whatever the order, no message is taken twice. -/
theorem numbers_range {s : State} (h : (system K).Reachable s) :
    s.returned.map (·.taken.number) ++ s.queue.map (·.number) = List.range s.arrived := by
  refine Transition.System.invariant (P := fun s => s.returned.map (·.taken.number) ++
    s.queue.map (·.number) = List.range s.arrived) ?_ ?_ s h
  · rintro s rfl
    rfl
  · rintro s e s' - hs rfl
    cases e with
    | input allowStdin serializes =>
      -- what is asked for takes no number, and returns nothing
      simp only [step, blockingInputRequest]
      split <;> (try split) <;> (try split) <;> exact hs
    | send r => exact hs
    | arrive i =>
      simp only [step, arrive]
      split
      · exact hs
      · rw [List.map_append, List.map_singleton, ← List.append_assoc, hs, List.range_succ]
    | receive =>
      simp only [step, receive]
      split
      · next hqueue =>
        rw [hqueue, List.map_cons] at hs
        rw [List.map_append, List.map_singleton, List.append_assoc]
        exact hs
      · exact hs
    | interrupted => exact hs

/-! ## Runs -/

/-- It reads empty objects; a reply without a value says nothing. -/
def kernel : Kernel := ⟨Wire.checksum, Wire.emptyObjects.parse⟩

def emptyText : Bytes := [0x7b, 0x7d]

def replyUnder (signature : Bytes) : Reply :=
  ⟨[Wire.delimiter, signature, emptyText, emptyText, emptyText, emptyText], fun _ => 0⟩

def signed : Reply := replyUnder (kernel.auth.sign [emptyText, emptyText, emptyText, emptyText])

/-- Two prompts, with a reply each. -/
def answered : List Event := [.input true true, .send signed, .arrive 0, .receive,
  .input true true, .send signed, .arrive 0, .receive]

theorem input_answers_prompt_answered : Sound kernel (answered.foldl (step kernel) {}) :=
  input_answers_prompt (Transition.System.reachable_of_allSteps (by decide +kernel))

/-- A reply that came before the prompt. -/
def stale : List Event := [.send signed, .arrive 0, .input true true, .receive]

/-- The second of two replies to a prompt. -/
def twice : List Event := [.input true true, .send signed, .send signed, .arrive 0, .arrive 0,
  .receive, .input true true, .receive]

/-- The reply to a prompt that was interrupted. -/
def leftOver : List Event := [.input true true, .interrupted, .send signed, .arrive 0,
  .input true true, .receive]

def refused : List Event :=
  [.input true true, .send (replyUnder [0x30, 0x31]), .arrive 0, .receive]

variable (K) in
theorem not_sound_of {s : State} (h : (s.returned.any fun r =>
    !decide (signedValue K r.taken.reply = some r.value) || !decide (r.prompt ≤ r.taken.prompts)) =
      true) : ¬Sound K s := by
  intro hsound
  obtain ⟨r, hr, hwrong⟩ := List.any_eq_true.mp h
  simp [hsound.reply r hr] at hwrong

/-- A reply that came too early answers a prompt, one too many answers the next, so does one to a
prompt that was interrupted; and a message that is refused answers with nothing. -/
theorem reply_not_of_prompt :
    (∃ s, (system kernel).Reachable s ∧ (s.returned.map fun r => (r.prompt, r.taken.prompts)) =
      [(1, 0)] ∧ ¬Sound kernel s) ∧
    (∃ s, (system kernel).Reachable s ∧ (s.returned.map fun r => (r.prompt, r.taken.prompts)) =
      [(1, 1), (2, 1)] ∧ ¬Sound kernel s) ∧
    (∃ s, (system kernel).Reachable s ∧ (s.returned.map fun r => (r.prompt, r.taken.prompts)) =
      [(2, 1)] ∧ ¬Sound kernel s) ∧
    ∃ s, (system kernel).Reachable s ∧
      (s.returned.map fun r => (r.value, (inputValue kernel r.taken.reply).isNone)) = [("", true)] ∧
      ¬Sound kernel s :=
  ⟨⟨_, Transition.System.reachable_foldl _ _ stale, by decide +kernel,
      not_sound_of kernel (by decide +kernel)⟩,
    ⟨_, Transition.System.reachable_foldl _ _ twice, by decide +kernel,
      not_sound_of kernel (by decide +kernel)⟩,
    ⟨_, Transition.System.reachable_foldl _ _ leftOver, by decide +kernel,
      not_sound_of kernel (by decide +kernel)⟩,
    ⟨_, Transition.System.reachable_foldl _ _ refused, by decide +kernel,
      not_sound_of kernel (by decide +kernel)⟩⟩

end Jovian.Stdin
