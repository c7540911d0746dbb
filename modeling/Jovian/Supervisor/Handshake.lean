import Jovian.Supervisor.Delivery
import Jovian.Supervisor.Registration
import Mathlib.Data.List.Nodup
import Mathlib.Logic.Function.Basic

/-!
# Jovian — kernels and the supervisor register (`sendConnectionInfo`, `waitForConfiguration`)

A kernel that has bound its sockets sends its ports, signed, to the supervisor's one registration
socket, and waits five seconds for a signed "ACK" or "REJECTED ..."; without an "ACK" it ends. The
supervisor waits for one kernel at a time. What others send there does not pass the signature check.

* **`registration_agrees`** — in every run a kernel that starts has been taken with its own ports by a
  wait that was for it, every registration taken is some kernel's, and one that was refused was not
  taken by any.
-/

namespace Jovian.Handshake

open Utf8 (Bytes)
open Transition (System)
open Delivery (utf8 Link)
open Registration (Answer KernelConfiguration Listener Passes Ports Received Verdict register)
open Wire (OpensslAuthentication delimiter splitDelimiter)

/-! ## A kernel's side -/

/-- The registration's JSON; its members are in the order that `dump()` gives them. -/
def connectionInfo (c : KernelConfiguration) : Json := .object [
  ("control_port", .string c.ports.control), ("hb_port", .string c.ports.hb),
  ("iopub_port", .string c.ports.iopub), ("kernel_id", .string c.kernelId),
  ("shell_port", .string c.ports.shell), ("stdin_port", .string c.ports.stdin)]

/-- What `sendConnectionInfo` throws. -/
inductive Failure where
  | noAnswer
  | noDelimiter
  | notAnAnswer
  | notSigned
  | refused (why : Bytes)
deriving DecidableEq, Repr

def ack : Bytes := utf8 "ACK".toList

def rejected : Bytes := utf8 "REJECTED ".toList

/-- The end of `sendConnectionInfo`: what it makes of the answer. -/
def readAnswer (auth : OpensslAuthentication) (behind : Nat → UInt8) (frames : List Bytes) : Except Failure Unit :=
  match splitDelimiter frames with
  | none => .error .noDelimiter
  | some (_, signature :: answer :: _) =>
    if (auth.verifyImpl behind signature [answer]).1 = false then .error .notSigned
    else if answer = ack then .ok ()
    else .error (.refused (if rejected <+: answer then answer.drop rejected.length else answer))
  | some _ => .error .notAnAnswer

/-! ## Both sides -/

/-- What the parties have from elsewhere. -/
structure Setting where
  link : Link
  /-- `std::to_string` of a number as a `long long` -/
  integerText : String → String
  /-- What the supervisor's socket calls a kernel's. -/
  identity : Nat → Bytes
  identity_ne : ∀ n, identity n ≠ delimiter
  /-- A kernel's id, as it was launched, and the ports it has bound. -/
  config : Nat → KernelConfiguration

variable (S : Setting)

def Setting.listener : Listener where
  auth := S.link.auth
  parse := S.link.parse
  integerText := S.integerText

/-- A kernel's registration, as it arrives. -/
def registration (n : Nat) (behind : Nat → UInt8) : Received :=
  let content := utf8 (Json.dump (connectionInfo (S.config n)))
  { frames := [S.identity n, delimiter, S.link.auth.sign [content], content], behind }

/-- The text of an answer in the short form. -/
def answerText : Answer → Option Bytes
  | .ack => some ack
  | .rejected why => some (rejected ++ utf8 why.toList)
  | .handshakeReply => none

/-- `answerShortForm`, as it arrives at the kernel. -/
def answerShortForm (text : Bytes) : List Bytes :=
  [delimiter, S.link.auth.sign [text], text]

/-- A message at the registration socket. -/
inductive Letter where
  | kernel (n : Nat) (behind : Nat → UInt8)
  | stranger (m : { m : Received // ¬Passes S.listener m })

variable {S} in
def Letter.received : Letter S → Received
  | .kernel n behind => registration S n behind
  | .stranger m => m.val

variable {S} in
def Letter.sender : Letter S → Option Nat
  | .kernel n _ => some n
  | .stranger _ => none

inductive Phase where
  | fresh
  | asking
  | started
  | ended (why : Failure)
deriving DecidableEq

/-- A configuration that a wait has returned. -/
structure Taken where
  expectedKernelId : String
  sender : Option Nat
  config : KernelConfiguration
deriving DecidableEq

structure State where
  phase : Nat → Phase := fun _ => .fresh
  /-- What has been sent to a kernel and it has not read. -/
  mailbox : Nat → List (List Bytes) := fun _ => []
  inbox : List (Letter S) := []
  /-- For which kernel the supervisor waits. -/
  awaiting : Option String := none
  taken : List Taken := []

inductive Event where
  | send (n : Nat) (behind : Nat → UInt8)
  | stranger (m : { m : Received // ¬Passes S.listener m })
  | await (expectedKernelId : String)
  | receive
  /-- `shouldAbort`, or the deadline of the wait. -/
  | giveUp
  | read (n : Nat) (behind : Nat → UInt8)
  /-- The kernel's five seconds. -/
  | timeout (n : Nat)

namespace State

variable {S}

def goto (s : State S) (n : Nat) (phase : Phase) : State S :=
  { s with phase := Function.update s.phase n phase }

/-- Answers go to the sender of a message; what is sent to a stranger is not followed. -/
def post (s : State S) (letter : Letter S) (answers : List Answer) : State S :=
  match letter.sender with
  | none => s
  | some n => { s with
      mailbox := Function.update s.mailbox n
        (s.mailbox n ++ (answers.filterMap answerText).map (answerShortForm S)) }

end State

variable {S} in
def step (s : State S) : Event S → State S
  | .send n behind =>
    if s.phase n = .fresh then { s.goto n .asking with inbox := s.inbox ++ [.kernel n behind] } else s
  | .stranger m => { s with inbox := s.inbox ++ [.stranger m] }
  | .await expectedKernelId =>
    if s.awaiting = none then { s with awaiting := some expectedKernelId } else s
  | .receive =>
    match s.awaiting, s.inbox with
    | some expectedKernelId, letter :: inbox =>
      match register S.listener expectedKernelId letter.received with
      | .refused answers => State.post { s with inbox } letter answers
      | .taken config answer =>
        State.post { s with
          inbox
          awaiting := none
          taken := s.taken ++ [⟨expectedKernelId, letter.sender, config⟩] } letter [answer]
      | .thrown _ => { s with inbox, awaiting := none }
    | _, _ => s
  | .giveUp => { s with awaiting := none }
  | .read n behind =>
    if s.phase n = .asking then
      match s.mailbox n with
      | [] => s
      | frames :: rest =>
        { s with mailbox := Function.update s.mailbox n rest }.goto n
          (match readAnswer S.link.auth behind frames with
          | .ok _ => .started
          | .error why => .ended why)
    else s
  | .timeout n => if s.phase n = .asking then s.goto n (.ended .noAnswer) else s

def system : System (State S) (Event S) := System.ofFn {} step

/-! ## What is promised -/

/-- Why a kernel is refused: the wait is for another one. -/
def whyRefused (kernelId expectedKernelId : String) : Bytes :=
  utf8 ("another kernel's (" ++ kernelId ++ ", not " ++ expectedKernelId ++ ")").toList

/-- **The two sides agree.** -/
structure Agreement (s : State S) : Prop where
  /-- A kernel that starts has been taken, with its ports. -/
  started : ∀ n, s.phase n = .started → ∃ t ∈ s.taken, t.sender = some n ∧ t.config = S.config n
  /-- What is taken is a kernel's, by a wait for it or for any. -/
  taken : ∀ t ∈ s.taken, ∃ n, t.sender = some n ∧ t.config = S.config n ∧
    (t.expectedKernelId = "" ∨ (S.config n).kernelId = t.expectedKernelId)
  /-- No kernel is taken twice. -/
  once : (s.taken.filterMap Taken.sender).Nodup
  /-- A kernel that is told that it is refused has not been taken. -/
  refused : ∀ n why, s.phase n = .ended (.refused why) → (∀ t ∈ s.taken, t.sender ≠ some n) ∧
    ∃ expectedKernelId, (S.config n).kernelId ≠ expectedKernelId ∧
      why = whyRefused (S.config n).kernelId expectedKernelId
  /-- A kernel understands what it is answered. -/
  understood : ∀ n why, s.phase n = .ended why → why = .noAnswer ∨ ∃ text, why = .refused text

/-! ## One message and its answer -/

section Message

variable {S}

theorem holds_connectionInfo (c : KernelConfiguration) : S.link.Holds (connectionInfo c) where
  canonical := by
    refine Delivery.canonical_strings [("control_port", c.ports.control), ("hb_port", c.ports.hb),
      ("iopub_port", c.ports.iopub), ("kernel_id", c.kernelId), ("shell_port", c.ports.shell),
      ("stdin_port", c.ports.stdin)] ?_
    simp only [List.pairwise_cons, List.mem_cons, List.not_mem_nil, or_false, forall_eq_or_imp, forall_eq,
      List.Pairwise.nil, and_true, false_implies, implies_true]
    decide
  inRange s hs := by
    simp [connectionInfo, Json.tokens, Json.moreMembers] at hs

/-- What becomes of a kernel's registration. -/
def verdict (expectedKernelId : String) (c : KernelConfiguration) : Verdict :=
  if expectedKernelId ≠ "" ∧ c.kernelId ≠ expectedKernelId then
    .refused [.rejected ("another kernel's (" ++ c.kernelId ++ ", not " ++ expectedKernelId ++ ")")]
  else .taken c .ack

theorem readSigned_connectionInfo (expectedKernelId : String) (c : KernelConfiguration) :
    Registration.readSigned expectedKernelId (connectionInfo c) = .ok (verdict expectedKernelId c) := by
  have hobject : (connectionInfo c).isObject = true := rfl
  have hkernelId : Registration.valueString (connectionInfo c) "kernel_id" = .ok c.kernelId := rfl
  have hports : Registration.readPorts (Registration.portOf (connectionInfo c)) = .ok c.ports := rfl
  rw [Registration.readSigned, hobject, hkernelId, hports, verdict, if_neg (by simp), ok_bind]
  split <;> rfl

theorem readShortForm_signed {L : Listener} {m : Received} {ids rest : List Bytes} {signature content : Bytes}
    (expectedKernelId : String) (hsplit : splitDelimiter m.frames = some (ids, signature :: content :: rest))
    (hpasses : (L.auth.verifyImpl m.behind signature [content]).1 = true) :
    Registration.readShortForm L expectedKernelId m = Registration.readSigned expectedKernelId (L.parse content) := by
  simp only [Registration.readShortForm, Wire.deserializeZmqId, hsplit, ok_bind, hpasses, Bool.true_eq_false, if_false]

/-- **A kernel's registration** is taken with its ports, or refused as another's. -/
theorem register_registration (expectedKernelId : String) (n : Nat) (behind : Nat → UInt8) :
    register S.listener expectedKernelId (registration S n behind) = verdict expectedKernelId (S.config n) := by
  have hsplit : splitDelimiter (registration S n behind).frames = some ([S.identity n],
      [S.link.auth.sign [utf8 (Json.dump (connectionInfo (S.config n)))],
        utf8 (Json.dump (connectionInfo (S.config n)))]) :=
    @Wire.splitDelimiter_append [S.identity n] (by simpa using S.identity_ne n) _
  have hother := Registration.readJep66Handshake_short (L := S.listener) hsplit (Nat.lt_of_sub_eq_succ rfl)
  have hparse : S.listener.parse (utf8 (Json.dump (connectionInfo (S.config n)))) = connectionInfo (S.config n) :=
    (holds_connectionInfo (S.config n)).parse_dump
  rw [register, hother, ok_bind, readShortForm_signed expectedKernelId hsplit Wire.verifyImpl_sign, hparse,
    readSigned_connectionInfo]

/-- A message whose signature does not pass is not taken. -/
theorem register_stranger {L : Listener} {m : Received} (h : ¬Passes L m) (expectedKernelId : String)
    (config : KernelConfiguration) (answer : Answer) : register L expectedKernelId m ≠ .taken config answer := by
  intro htaken
  rcases Registration.register_eq_taken_iff.mp ⟨answer, htaken⟩ with ⟨_, _, _, _, hform, -⟩ | ⟨_, _, hform, -⟩
  · obtain ⟨before, header, parentHeader, metadata, content, buffers, hsplit, rfl, -⟩ := hform.frames
    exact h (.handshake hsplit hform.passes)
  · obtain ⟨ids, rest, hsplit⟩ := hform.frames
    match rest, hsplit with
    | [], hsplit | [_], hsplit | [_, _], hsplit => exact h (.shortForm hsplit (by simp) hform.passes)
    | metadata :: content' :: extra :: buffers, hsplit =>
      -- with so many frames it was read as a Jupyter message first, and its signature passed there
      have hother := hform.other
      rw [Registration.readJep66Handshake_split hsplit] at hother
      split at hother
      · cases hother
      · next hpasses => exact h (.handshake hsplit (by simpa using hpasses))

/-- A kernel reads an answer as it was meant. -/
theorem readAnswer_answerShortForm (behind : Nat → UInt8) (text : Bytes) :
    readAnswer S.link.auth behind (answerShortForm S text) =
      if text = ack then .ok ()
      else .error (.refused (if rejected <+: text then text.drop rejected.length else text)) := by
  have hsplit : splitDelimiter (answerShortForm S text) = some ([], [S.link.auth.sign [text], text]) :=
    @Wire.splitDelimiter_append [] nofun _
  have hpasses : (S.link.auth.verifyImpl behind (S.link.auth.sign [text]) [text]).1 = true := Wire.verifyImpl_sign
  rw [readAnswer, hsplit]
  dsimp only
  rw [hpasses, if_neg (by simp)]

theorem readAnswer_ack (behind : Nat → UInt8) :
    readAnswer S.link.auth behind (answerShortForm S ack) = .ok () := by
  rw [readAnswer_answerShortForm, if_pos rfl]

theorem readAnswer_rejected (behind : Nat → UInt8) (why : Bytes) :
    readAnswer S.link.auth behind (answerShortForm S (rejected ++ why)) = .error (.refused why) := by
  have hack : rejected ++ why ≠ ack := by
    intro h
    have hprefix : rejected <+: ack := h ▸ List.prefix_append _ _
    exact absurd hprefix (by decide)
  rw [readAnswer_answerShortForm, if_neg hack, if_pos (List.prefix_append _ _), List.drop_left]

end Message

/-! ## A kernel's registration on its way -/

section Story

variable {S}

/-- How many registrations of a kernel are at the socket, and how many were taken. -/
def State.letters (s : State S) (n : Nat) : Nat := (s.inbox.filterMap Letter.sender).count n

def State.takes (s : State S) (n : Nat) : Nat := (s.taken.filterMap Taken.sender).count n

/-- It has asked, and may have given up. -/
def Phase.Asked (phase : Phase) : Prop := phase = .asking ∨ phase = .ended .noAnswer

/-- How far a kernel's registration is. -/
inductive Story (s : State S) (n : Nat) : Prop where
  | fresh (hphase : s.phase n = .fresh) (hmail : s.mailbox n = []) (hletters : s.letters n = 0)
      (htakes : s.takes n = 0)
  | asked (hphase : (s.phase n).Asked) (hmail : s.mailbox n = []) (hletters : s.letters n = 1)
      (htakes : s.takes n = 0)
  | accepted (hphase : (s.phase n).Asked) (hmail : s.mailbox n = [answerShortForm S ack])
      (hletters : s.letters n = 0) (htakes : s.takes n = 1)
  | started (hphase : s.phase n = .started) (hmail : s.mailbox n = []) (hletters : s.letters n = 0)
      (htakes : s.takes n = 1)
  | rejected (e : String) (he : (S.config n).kernelId ≠ e) (hphase : (s.phase n).Asked)
      (hmail : s.mailbox n = [answerShortForm S (rejected ++ whyRefused (S.config n).kernelId e)])
      (hletters : s.letters n = 0) (htakes : s.takes n = 0)
  | refused (e : String) (he : (S.config n).kernelId ≠ e)
      (hphase : s.phase n = .ended (.refused (whyRefused (S.config n).kernelId e)))
      (hmail : s.mailbox n = []) (hletters : s.letters n = 0) (htakes : s.takes n = 0)

structure Inv (s : State S) : Prop where
  story : ∀ n, Story s n
  taken : ∀ t ∈ s.taken, ∃ n, t.sender = some n ∧ t.config = S.config n ∧
    (t.expectedKernelId = "" ∨ (S.config n).kernelId = t.expectedKernelId)

variable {s s' : State S} {n : Nat}

/-- A registration is as far as before where nothing of it has changed. -/
theorem Story.frame (h : Story s n) (hphase : s'.phase n = s.phase n) (hmail : s'.mailbox n = s.mailbox n)
    (hletters : s'.letters n = s.letters n) (htakes : s'.takes n = s.takes n) : Story s' n := by
  cases h with
  | fresh h1 h2 h3 h4 =>
    exact .fresh (hphase.trans h1) (hmail.trans h2) (hletters.trans h3) (htakes.trans h4)
  | asked h1 h2 h3 h4 =>
    exact .asked (hphase ▸ h1) (hmail.trans h2) (hletters.trans h3) (htakes.trans h4)
  | accepted h1 h2 h3 h4 =>
    exact .accepted (hphase ▸ h1) (hmail.trans h2) (hletters.trans h3) (htakes.trans h4)
  | started h1 h2 h3 h4 =>
    exact .started (hphase.trans h1) (hmail.trans h2) (hletters.trans h3) (htakes.trans h4)
  | rejected e he h1 h2 h3 h4 =>
    exact .rejected e he (hphase ▸ h1) (hmail.trans h2) (hletters.trans h3) (htakes.trans h4)
  | refused e he h1 h2 h3 h4 =>
    exact .refused e he (hphase.trans h1) (hmail.trans h2) (hletters.trans h3) (htakes.trans h4)

theorem letters_cons (letter : Letter S) (inbox : List (Letter S)) :
    ((letter :: inbox).filterMap Letter.sender).count n =
      (inbox.filterMap Letter.sender).count n + if letter.sender = some n then 1 else 0 := by
  rw [List.filterMap_cons]
  cases hsender : letter.sender with
  | none => simp
  | some n' =>
    simp only [List.count_cons, Option.some.injEq, beq_iff_eq]

/-! ## The kernels' steps -/

theorem Inv.send (h : Inv s) (behind : Nat → UInt8) (hfresh : s.phase n = .fresh) :
    Inv { s.goto n .asking with inbox := s.inbox ++ [.kernel n behind] } where
  story n' := by
    have hletters : ((s.inbox ++ [Letter.kernel n behind]).filterMap Letter.sender).count n' =
        s.letters n' + if n = n' then 1 else 0 := by
      rw [List.filterMap_append, List.count_append]
      show _ + [n].count n' = _
      simp only [List.count_singleton, beq_iff_eq]
      rfl
    by_cases hn : n = n'
    · subst hn
      rw [if_pos rfl] at hletters
      cases h.story n with
      | fresh hphase hmail hzero htakes =>
        refine .asked (.inl (Function.update_self ..)) hmail ?_ htakes
        exact hletters.trans (by rw [hzero])
      | asked hphase => exact absurd (hfresh ▸ hphase) (by simp [Phase.Asked])
      | accepted hphase => exact absurd (hfresh ▸ hphase) (by simp [Phase.Asked])
      | started hphase => exact absurd (hfresh.symm.trans hphase) nofun
      | rejected e he hphase => exact absurd (hfresh ▸ hphase) (by simp [Phase.Asked])
      | refused e he hphase => exact absurd (hfresh.symm.trans hphase) nofun
    · rw [if_neg hn] at hletters
      exact (h.story n').frame (Function.update_of_ne (Ne.symm hn) ..) rfl hletters rfl
  taken := h.taken

theorem Inv.stranger (h : Inv s) (m : { m : Received // ¬Passes S.listener m }) :
    Inv { s with inbox := s.inbox ++ [.stranger m] } where
  story n' := by
    refine (h.story n').frame rfl rfl ?_ rfl
    show ((s.inbox ++ [Letter.stranger m]).filterMap Letter.sender).count n' = _
    rw [List.filterMap_append, List.count_append]
    exact Nat.add_zero _
  taken := h.taken

theorem Inv.timeout (h : Inv s) (hasking : s.phase n = .asking) : Inv (s.goto n (.ended .noAnswer)) where
  story n' := by
    by_cases hn : n = n'
    · subst hn
      have hphase : (Function.update s.phase n (.ended .noAnswer) n).Asked := .inr (Function.update_self ..)
      cases h.story n with
      | fresh hphase' => exact absurd (hasking.symm.trans hphase') nofun
      | asked _ hmail hletters htakes => exact .asked hphase hmail hletters htakes
      | accepted _ hmail hletters htakes => exact .accepted hphase hmail hletters htakes
      | started hphase' => exact absurd (hasking.symm.trans hphase') nofun
      | rejected e he _ hmail hletters htakes => exact .rejected e he hphase hmail hletters htakes
      | refused e he hphase' => exact absurd (hasking.symm.trans hphase') nofun
    · exact (h.story n').frame (Function.update_of_ne (Ne.symm hn) ..) rfl rfl rfl
  taken := h.taken

/-- The kernel reads what it was answered. -/
theorem Inv.read (h : Inv s) (behind : Nat → UInt8) (hasking : s.phase n = .asking) {frames : List Bytes}
    {rest : List (List Bytes)} (hmail : s.mailbox n = frames :: rest) :
    Inv (State.goto { s with mailbox := Function.update s.mailbox n rest } n
      (match readAnswer S.link.auth behind frames with
      | .ok _ => .started
      | .error why => .ended why)) where
  story n' := by
    by_cases hn : n = n'
    · subst hn
      cases h.story n with
      | fresh hphase => exact absurd (hasking.symm.trans hphase) nofun
      | asked _ hempty => exact absurd (hmail.symm.trans hempty) nofun
      | started hphase => exact absurd (hasking.symm.trans hphase) nofun
      | refused e he hphase => exact absurd (hasking.symm.trans hphase) nofun
      | accepted _ hone hletters htakes =>
        obtain ⟨rfl, rfl⟩ := List.cons.inj (hmail.symm.trans hone)
        refine .started ?_ (Function.update_self ..) hletters htakes
        rw [readAnswer_ack]
        exact Function.update_self ..
      | rejected e he _ hone hletters htakes =>
        obtain ⟨rfl, rfl⟩ := List.cons.inj (hmail.symm.trans hone)
        refine .refused e he ?_ (Function.update_self ..) hletters htakes
        rw [readAnswer_rejected]
        exact Function.update_self ..
    · exact (h.story n').frame (Function.update_of_ne (Ne.symm hn) ..) (Function.update_of_ne (Ne.symm hn) ..)
        rfl rfl
  taken := h.taken

/-! ## The supervisor's steps -/

theorem Inv.await (h : Inv s) (awaiting : Option String) : Inv { s with awaiting } :=
  ⟨fun n' => (h.story n').frame rfl rfl rfl rfl, h.taken⟩

/-- A message of a stranger is gone, whatever became of it. -/
theorem Inv.dropped (h : Inv s) {letter : Letter S} {inbox : List (Letter S)} (hinbox : s.inbox = letter :: inbox)
    (hsender : letter.sender = none) (answers : List Answer) (awaiting : Option String) :
    Inv (State.post { s with inbox, awaiting } letter answers) := by
  have hletters : ∀ n', (inbox.filterMap Letter.sender).count n' = s.letters n' := by
    intro n'
    rw [State.letters, hinbox, letters_cons, hsender]
    simp
  simp only [State.post, hsender]
  exact ⟨fun n' => (h.story n').frame rfl rfl (hletters n') rfl, h.taken⟩

/-- A registration at the socket has not been answered. -/
theorem Inv.at_socket (h : Inv s) {behind : Nat → UInt8} {inbox : List (Letter S)}
    (hinbox : s.inbox = .kernel n behind :: inbox) : (s.phase n).Asked ∧ s.mailbox n = [] ∧ s.takes n = 0 ∧
      (∀ n', (inbox.filterMap Letter.sender).count n' + (if n = n' then 1 else 0) = s.letters n') ∧
      (inbox.filterMap Letter.sender).count n = 0 := by
  have hletters : ∀ n', (inbox.filterMap Letter.sender).count n' + (if n = n' then 1 else 0) = s.letters n' := by
    intro n'
    rw [State.letters, hinbox, letters_cons]
    simp [Letter.sender]
  have hn := hletters n
  rw [if_pos rfl] at hn
  cases h.story n with
  | asked hphase hmail hone htakes =>
    refine ⟨hphase, hmail, htakes, hletters, ?_⟩
    omega
  | fresh _ _ hzero => omega
  | accepted _ _ hzero => omega
  | started _ _ hzero => omega
  | rejected e he _ _ hzero => omega
  | refused e he _ _ hzero => omega

theorem Inv.receive_rejected (h : Inv s) {behind : Nat → UInt8} {inbox : List (Letter S)}
    (hinbox : s.inbox = .kernel n behind :: inbox) {e : String} (he : (S.config n).kernelId ≠ e) :
    Inv (State.post { s with inbox } (.kernel n behind)
      [.rejected ("another kernel's (" ++ (S.config n).kernelId ++ ", not " ++ e ++ ")")]) where
  story n' := by
    obtain ⟨hphase, hmail, htakes, hletters, hzero⟩ := h.at_socket hinbox
    by_cases hn : n = n'
    · subst hn
      refine .rejected e he hphase ?_ hzero htakes
      show Function.update s.mailbox n _ n = _
      rw [Function.update_self, hmail]
      rfl
    · refine (h.story n').frame rfl (Function.update_of_ne (Ne.symm hn) ..) ?_ rfl
      have hsame := hletters n'
      rw [if_neg hn] at hsame
      exact hsame
  taken := h.taken

theorem Inv.receive_taken (h : Inv s) {behind : Nat → UInt8} {inbox : List (Letter S)}
    (hinbox : s.inbox = .kernel n behind :: inbox) {e : String} (he : e = "" ∨ (S.config n).kernelId = e) :
    Inv (State.post { s with
      inbox
      awaiting := none
      taken := s.taken ++ [⟨e, some n, S.config n⟩] } (.kernel n behind) [.ack]) where
  story n' := by
    obtain ⟨hphase, hmail, htakes, hletters, hzero⟩ := h.at_socket hinbox
    have hcount : ((s.taken ++ [Taken.mk e (some n) (S.config n)]).filterMap Taken.sender).count n' =
        s.takes n' + if n = n' then 1 else 0 := by
      rw [List.filterMap_append, List.count_append]
      show _ + [n].count n' = _
      simp only [List.count_singleton, beq_iff_eq]
      rfl
    by_cases hn : n = n'
    · subst hn
      rw [if_pos rfl] at hcount
      refine .accepted hphase ?_ hzero (hcount.trans (by rw [htakes]))
      show Function.update s.mailbox n _ n = _
      rw [Function.update_self, hmail]
      rfl
    · rw [if_neg hn] at hcount
      have hsame := hletters n'
      rw [if_neg hn] at hsame
      exact (h.story n').frame rfl (Function.update_of_ne (Ne.symm hn) ..) hsame hcount
  taken t ht := by
    rcases List.mem_append.mp ht with ht | ht
    · exact h.taken t ht
    · obtain rfl := List.mem_singleton.mp ht
      exact ⟨n, rfl, rfl, he⟩

theorem Inv.receive (h : Inv s) : Inv (step s .receive) := by
  simp only [Handshake.step]
  split
  · next e letter inbox hawaiting hinbox =>
    cases letter with
    | kernel n behind =>
      rw [show (Letter.kernel n behind : Letter S).received = registration S n behind from rfl, register_registration]
      unfold verdict
      split_ifs with hother
      · exact h.receive_rejected hinbox hother.2
      · refine h.receive_taken hinbox ?_
        by_cases hempty : e = ""
        · exact .inl hempty
        · exact .inr (by_contra fun hne => hother ⟨hempty, hne⟩)
    | stranger m =>
      split
      · next answers _ => exact h.dropped hinbox rfl answers s.awaiting
      · next config answer htaken => exact absurd htaken (register_stranger m.2 e config answer)
      · exact h.dropped hinbox rfl [] none
  · exact h

theorem Inv.step (h : Inv s) (e : Event S) : Inv (step s e) := by
  cases e with
  | send n behind =>
    simp only [Handshake.step]
    split
    · next hfresh => exact h.send behind hfresh
    · exact h
  | stranger m => exact h.stranger m
  | await e =>
    simp only [Handshake.step]
    split
    · exact h.await (some e)
    · exact h
  | receive => exact h.receive
  | giveUp => exact h.await none
  | read n behind =>
    simp only [Handshake.step]
    split
    · next hasking =>
      split
      · exact h
      · next frames rest hmail => exact h.read behind hasking hmail
    · exact h
  | timeout n =>
    simp only [Handshake.step]
    split
    · next hasking => exact h.timeout hasking
    · exact h

end Story

/-! ## Agreement -/

theorem inv_of_reachable {S : Setting} {s : State S} (hs : (system S).Reachable s) : Inv s := by
  refine System.invariant (fun s hinit => ?_) (fun s e s' _ hs hstep => ?_) s hs
  · rw [hinit]
    exact ⟨fun n => .fresh rfl rfl rfl rfl, nofun⟩
  · rw [hstep]
    exact hs.step e

/-- **A kernel that starts is the one that was taken**, and a kernel that was refused is not: in every
state that a run can reach. -/
theorem registration_agrees {S : Setting} {s : State S} (hs : (system S).Reachable s) : Agreement S s := by
  have h := inv_of_reachable hs
  have hmem : ∀ n, 0 < s.takes n → ∃ t ∈ s.taken, t.sender = some n := fun n hn =>
    List.mem_filterMap.mp (List.count_pos_iff.mp hn)
  refine ⟨fun n hphase => ?_, h.taken, ?_, fun n why hphase => ?_, fun n why hphase => ?_⟩
  · cases h.story n with
    | started _ _ _ htakes =>
      obtain ⟨t, ht, hsender⟩ := hmem n (by omega)
      obtain ⟨n', hsender', hconfig, -⟩ := h.taken t ht
      obtain rfl := Option.some.inj (hsender.symm.trans hsender')
      exact ⟨t, ht, hsender, hconfig⟩
    | fresh hphase' => exact absurd (hphase.symm.trans hphase') nofun
    | refused e he hphase' => exact absurd (hphase.symm.trans hphase') nofun
    | asked hphase' => exact absurd (hphase ▸ hphase') (by simp [Phase.Asked])
    | accepted hphase' => exact absurd (hphase ▸ hphase') (by simp [Phase.Asked])
    | rejected e he hphase' => exact absurd (hphase ▸ hphase') (by simp [Phase.Asked])
  · refine List.nodup_iff_count_le_one.mpr fun n => ?_
    show s.takes n ≤ 1
    cases h.story n <;> omega
  · cases h.story n with
    | refused e he hphase' _ _ htakes =>
      obtain rfl : whyRefused (S.config n).kernelId e = why := by
        simpa using hphase'.symm.trans hphase
      refine ⟨fun t ht hsender => ?_, e, he, rfl⟩
      have hpos : 0 < s.takes n := List.count_pos_iff.mpr (List.mem_filterMap.mpr ⟨t, ht, hsender⟩)
      omega
    | fresh hphase' => exact absurd (hphase.symm.trans hphase') nofun
    | started hphase' => exact absurd (hphase.symm.trans hphase') nofun
    | asked hphase' => exact absurd (hphase ▸ hphase') (by simp [Phase.Asked])
    | accepted hphase' => exact absurd (hphase ▸ hphase') (by simp [Phase.Asked])
    | rejected e he hphase' => exact absurd (hphase ▸ hphase') (by simp [Phase.Asked])
  · have hasked : (s.phase n).Asked → why = .noAnswer := by
      rintro (hasking | hended)
      · exact absurd (hphase.symm.trans hasking) nofun
      · simpa using hphase.symm.trans hended
    cases h.story n with
    | fresh hphase' => exact absurd (hphase.symm.trans hphase') nofun
    | started hphase' => exact absurd (hphase.symm.trans hphase') nofun
    | asked hphase' => exact .inl (hasked hphase')
    | accepted hphase' => exact .inl (hasked hphase')
    | rejected e he hphase' => exact .inl (hasked hphase')
    | refused e he hphase' => exact .inr ⟨_, by simpa using hphase.symm.trans hphase'⟩

/-! ## A stale kernel, and the one that is waited for -/

def twoLaunches : Setting where
  link := Delivery.exampleLink
  integerText spelling := spelling
  identity n := [0, n.toUInt8]
  identity_ne n h := by
    have hlength := congrArg List.length h
    exact absurd hlength (show ¬2 = 9 by decide)
  config n := ⟨if n = 0 then "launch-1" else "launch-2", "40100", "40101", "40102", "40103", "40104"⟩

def staleFirst : List (Event twoLaunches) :=
  [.await "launch-2", .send 0 fun _ => 0, .send 1 fun _ => 0, .receive, .receive, .read 0 fun _ => 0,
    .read 1 fun _ => 0]

theorem registration_agrees_stale : Agreement twoLaunches (staleFirst.foldl step {}) :=
  registration_agrees (System.reachable_foldl ({} : State twoLaunches) step staleFirst)

end Jovian.Handshake
