import Jovian.Lib.Log
import Jovian.Lib.Transition
import Mathlib.Data.List.Infix

/-!
# Jovian — what a WebSocket client is sent (`Outbox`)

The supervisor only pushes messages. A thread of the client's own takes everything that is queued
and sends it as few frames, the messages joined with newlines; before it sends more it waits until
the connection holds no more than `kMaxBuffered` unsent bytes.

What producers and the sender share is under one lock. Here a step of the sender is one look at what
is shared, one frame handed to the connection, or what lies between two of these.

* **`frames_carry_messages`** — in every run the frames sent carry the messages that were pushed, in
  order: all of them once the sender has ended without being abandoned, and from the stop on it ends
  as soon as the connection is drained. No frame is too long, and none is sent into a connection
  that has not drained (`Sound`).
-/

namespace Jovian.Outbox

open Transition (System)

/-! ## Messages and frames -/

abbrev Text := List UInt8

def kFrameBytes : Nat := 1 <<< 20
def kMaxBuffered : Nat := 1 <<< 20

def newline : UInt8 := 10

/-- What is pushed: some text on one line. -/
structure Message where
  text : Text
  ne_nil : text ≠ []
  one_line : newline ∉ text
deriving DecidableEq

/-- `frame` with a message more. -/
def add (frame : Text) (m : Message) : Text :=
  if frame = [] then m.text else frame ++ newline :: m.text

/-! ## The two sides -/

/-- Where the sender is, and what it has in hand. -/
inductive Sender where
  /-- At the lock, for the next batch. -/
  | waiting
  /-- In the loop over a batch: at the lock of `abandoned`, or behind the last message. -/
  | batch (frame : Text) (rest : List Message)
  /-- Not abandoned: `m` is next. -/
  | adding (frame : Text) (m : Message) (rest : List Message)
  /-- A frame has been sent. It looks at `m_buffered`; the next frame starts with `rest`. -/
  | sent (rest : List Message)
  /-- Too much was unsent; it looks whether that matters any more. -/
  | full (rest : List Message)
  | ended
deriving DecidableEq

/-- What the sender does and sees, and when it was told to drop everything. -/
inductive Action where
  | sent (frame : Text)
  | saw (unsent : Nat)
  | abandoned
deriving DecidableEq

structure State where
  queue : List Message := []
  stopping : Bool := false
  abandoned : Bool := false
  sender : Sender := .waiting
  /-- What `push` has taken. -/
  pushed : List Message := []
  log : List Action := []
deriving DecidableEq

inductive Event where
  | push (m : Message)
  | stop
  | abandon
  /-- The sender goes on; `unsent` is what `m_buffered` says, where it looks. -/
  | sender (unsent : Nat)
deriving DecidableEq

namespace State

def push (s : State) (m : Message) : State :=
  if s.stopping then s else { s with queue := s.queue ++ [m], pushed := s.pushed ++ [m] }

def stop (s : State) : State := { s with stopping := true }

def abandon (s : State) : State :=
  { s with stopping := true, abandoned := true, queue := [], log := s.log ++ [.abandoned] }

/-- `m_send(frame)` -/
def send (s : State) (frame : Text) (rest : List Message) : State :=
  { s with log := s.log ++ [.sent frame], sender := .sent rest }

end State

/-- Behind a `flush()`: the frame is empty. -/
def resume : List Message → Sender
  | [] => .waiting
  | m :: rest => .batch m.text rest

def run (s : State) (unsent : Nat) : State :=
  match s.sender with
  | .waiting =>
    match s.queue with
    | [] => if s.stopping then { s with sender := .ended } else s
    | batch => { s with queue := [], sender := .batch [] batch }
  | .batch frame [] => if frame = [] then { s with sender := .waiting } else s.send frame []
  | .batch frame (m :: rest) =>
    { s with sender := if s.abandoned then .ended else .adding frame m rest }
  | .adding frame m rest =>
    if frame ≠ [] ∧ frame.length + m.text.length + 1 > kFrameBytes then s.send frame (m :: rest)
    else { s with sender := .batch (add frame m) rest }
  | .sent rest =>
    { s with
      log := s.log ++ [.saw unsent]
      sender := if unsent > kMaxBuffered then .full rest else resume rest }
  | .full rest => { s with sender := if s.abandoned then resume rest else .sent rest }
  | .ended => s

def step (s : State) : Event → State
  | .push m => s.push m
  | .stop => s.stop
  | .abandon => s.abandon
  | .sender unsent => run s unsent

def system : System State Event := System.ofFn {} step

/-! ## The property -/

def Action.sent? : Action → Option Text
  | .sent frame => some frame
  | _ => none

/-- The frames sent, in order. -/
def State.sent (s : State) : List Text := s.log.filterMap Action.sent?

/-- What the client reads in a frame. -/
def lines (frame : Text) : List Text := frame.splitOn newline

def State.delivered (s : State) : List Text := s.sent.flatMap lines

def State.texts (s : State) : List Text := s.pushed.map Message.text

/-- The connection has drained since the last frame, or nothing matters any more. -/
def Drained (log : List Action) : Prop :=
  ∀ pre frame mid, log = pre ++ .sent frame :: mid →
    (∃ unsent, .saw unsent ∈ mid ∧ unsent ≤ kMaxBuffered) ∨ .abandoned ∈ pre ++ mid

/-- Each frame goes into a connection that has drained. -/
def Paced (log : List Action) : Prop :=
  ∀ pre frame, pre ++ [.sent frame] <+: log → Drained pre

/-- The most steps the sender takes to its end, once nothing is pushed and the connection drains. -/
def Sender.left : Sender → Nat
  | .waiting => 1
  | .batch _ rest => 4 * rest.length + 4
  | .adding _ _ rest => 4 * rest.length + 7
  | .sent rest => 4 * rest.length + 2
  | .full rest => 4 * rest.length + 3
  | .ended => 0

def State.left (s : State) : Nat :=
  s.sender.left + if s.queue = [] then 0 else 4 * s.queue.length + 4

/-- **The frames carry the messages.** -/
structure Sound (s : State) : Prop where
  in_order : s.delivered <+: s.texts
  complete : s.sender = .ended → s.abandoned = false → s.delivered = s.texts
  fits : ∀ frame ∈ s.sent, frame.length ≤ kFrameBytes ∨ ∃ m ∈ s.pushed, frame = m.text
  paced : Paced s.log
  /-- Stopped, it ends once it finds the connection drained from there on; all has been sent then. -/
  ends : s.stopping = true → ∀ looks : List Nat, (∀ unsent ∈ looks, unsent ≤ kMaxBuffered) →
    s.left ≤ looks.length → (looks.foldl run s).sender = .ended ∧
      (s.abandoned = false → (looks.foldl run s).delivered = s.texts)

/-! ## Frames -/

theorem add_ne_nil (frame : Text) (m : Message) : add frame m ≠ [] := by
  unfold add
  split
  · exact m.ne_nil
  · simp

/-- What the client will read in the frame in hand. -/
def carried (frame : Text) : List Text := if frame = [] then [] else lines frame

theorem carried_add (frame : Text) (m : Message) :
    carried (add frame m) = carried frame ++ [m.text] := by
  have hline : m.text.splitOn newline = [m.text] := List.splitOn_eq_singleton m.one_line
  rw [carried, if_neg (add_ne_nil frame m), add, carried]
  split
  · exact hline
  · rw [lines, List.splitOn_append_cons_self, hline]
    rfl

theorem carried_text (m : Message) : carried m.text = [m.text] := by
  rw [carried, if_neg m.ne_nil]
  exact List.splitOn_eq_singleton m.one_line

/-- What the sender has taken and not yet sent. -/
def Sender.hand : Sender → List Text
  | .batch frame rest => carried frame ++ rest.map Message.text
  | .adding frame m rest => carried frame ++ m.text :: rest.map Message.text
  | .sent rest | .full rest => rest.map Message.text
  | _ => []

theorem hand_resume (rest : List Message) : (resume rest).hand = rest.map Message.text := by
  cases rest with
  | nil => rfl
  | cons m rest =>
    show carried m.text ++ _ = _
    rw [carried_text]
    rfl

/-! ## The invariant -/

/-- The frame in hand can go out. -/
def Fits (pushed : List Message) (frame : Text) : Prop :=
  frame.length ≤ kFrameBytes ∨ ∃ m ∈ pushed, frame = m.text

def Sender.frame? : Sender → Option Text
  | .batch frame _ | .adding frame _ _ => some frame
  | _ => none

/-- The messages in hand that are in no frame yet. -/
def Sender.rest : Sender → List Message
  | .batch _ rest | .sent rest | .full rest => rest
  | .adding _ m rest => m :: rest
  | _ => []

/-- It has looked at the connection since its last frame, and may send. -/
def Sender.mayAdd : Sender → Bool
  | .sent _ | .full _ => false
  | _ => true

structure Inv (s : State) : Prop where
  kept : s.abandoned = false →
    s.delivered ++ s.sender.hand ++ s.queue.map Message.text = s.texts
  dropped : s.abandoned = true → s.delivered ++ s.sender.hand <+: s.texts
  stopped : s.abandoned = true → s.stopping = true ∧ s.queue = []
  ended : s.sender = .ended → s.abandoned = true ∨ s.queue = [] ∧ s.stopping = true
  fits : ∀ frame ∈ s.sent, Fits s.pushed frame
  frame : ∀ frame ∈ s.sender.frame?, Fits s.pushed frame
  taken : ∀ m ∈ s.sender.rest ++ s.queue, m ∈ s.pushed
  told : s.abandoned = true → .abandoned ∈ s.log
  drained : s.sender.mayAdd = true → Drained s.log
  paced : Paced s.log

/-! ## The log -/

variable {s : State} {log : List Action} {rest : List Message} {frame : Text} {unsent : Nat}

theorem sent_ne {a : Action} (ha : a.sent? = none) (frame : Text) : .sent frame ≠ a := by
  rintro rfl
  cases ha

theorem Drained.snoc (h : Drained log) {a : Action} (ha : a.sent? = none) :
    Drained (log ++ [a]) := by
  intro pre frame mid heq
  obtain ⟨mid', rfl, hlog⟩ := Log.split_snoc_of_ne (sent_ne ha frame) heq
  rcases h pre frame mid' hlog with ⟨n, hn, hle⟩ | habandoned
  · exact .inl ⟨n, List.mem_append_left _ hn, hle⟩
  · right
    rw [← List.append_assoc]
    exact List.mem_append_left _ habandoned

theorem drained_saw (hle : unsent ≤ kMaxBuffered) : Drained (log ++ [.saw unsent]) := by
  intro pre frame mid heq
  obtain ⟨mid', rfl, -⟩ := Log.split_snoc_of_ne (sent_ne rfl frame) heq
  exact .inl ⟨unsent, List.mem_append_right _ List.mem_cons_self, hle⟩

theorem drained_of_abandoned (h : .abandoned ∈ log) : Drained log := by
  intro pre frame mid heq
  subst heq
  right
  simpa using h

theorem Paced.snoc (h : Paced log) {a : Action} (ha : a.sent? ≠ none → Drained log) :
    Paced (log ++ [a]) := by
  intro pre frame hpre
  rcases List.prefix_concat_iff.mp hpre with heq | hpre
  · -- `a` is the frame
    obtain ⟨rfl, hlast⟩ := List.append_inj' heq rfl
    obtain rfl := List.singleton_inj.mp hlast
    exact ha fun hnone => by cases hnone
  · exact h pre frame hpre

/-! ## What was sent -/

theorem delivered_log {s' : State} {a : Action} (hlog : s'.log = s.log ++ [a])
    (ha : a.sent? = none) : s'.delivered = s.delivered ∧ s'.sent = s.sent := by
  have hsent : s'.sent = s.sent := by
    rw [State.sent, hlog, List.filterMap_append]
    simp [ha, State.sent]
  exact ⟨by rw [State.delivered, hsent, State.delivered], hsent⟩

theorem sent_send : (s.send frame rest).sent = s.sent ++ [frame] := by
  show (s.log ++ [Action.sent frame]).filterMap Action.sent? = _
  rw [List.filterMap_append]
  rfl

theorem delivered_send (hne : frame ≠ []) :
    (s.send frame rest).delivered = s.delivered ++ carried frame := by
  rw [State.delivered, sent_send, List.flatMap_append, carried, if_neg hne]
  simp [State.delivered]

/-! ## What is shared -/

theorem inv_init : Inv {} where
  kept _ := rfl
  dropped h := by cases h
  stopped h := by cases h
  ended h := by cases h
  fits frame h := by cases h
  frame frame h := by cases h
  taken m h := by cases h
  told h := by cases h
  drained _ := by
    intro pre frame mid h
    cases pre <;> cases h
  paced := by
    intro pre frame h
    simp at h

theorem Fits.mono {pushed pushed' : List Message} (h : Fits pushed frame)
    (hsub : pushed ⊆ pushed') : Fits pushed' frame :=
  h.imp_right fun ⟨m, hm, heq⟩ => ⟨m, hsub hm, heq⟩

theorem Inv.push (hs : Inv s) (m : Message) : Inv (s.push m) := by
  unfold State.push
  split
  · exact hs
  · rename_i hgoing
    have habandoned : s.abandoned = false := by
      by_contra h
      exact hgoing (hs.stopped (eq_true_of_ne_false h)).1
    have hsub : s.pushed ⊆ s.pushed ++ [m] := List.subset_append_left _ _
    refine ⟨fun _ => ?_, fun h => ?_, fun h => ?_, fun h => ?_, fun frame h => ?_, fun frame h => ?_,
      fun m' h => ?_, hs.told, hs.drained, hs.paced⟩
    · have hkept := hs.kept habandoned
      show s.delivered ++ s.sender.hand ++ (s.queue ++ [m]).map Message.text =
        (s.pushed ++ [m]).map Message.text
      rw [List.map_append, List.map_append, ← List.append_assoc, hkept]
      rfl
    · exact absurd (habandoned.symm.trans h) Bool.false_ne_true
    · exact absurd (habandoned.symm.trans h) Bool.false_ne_true
    · rcases hs.ended h with h | ⟨-, h⟩
      · exact .inl h
      · exact absurd h hgoing
    · exact (hs.fits frame h).mono hsub
    · exact (hs.frame frame h).mono hsub
    · have h' : m' ∈ (s.sender.rest ++ s.queue) ++ [m] := by
        rw [List.append_assoc]
        exact h
      rcases List.mem_append.mp h' with h' | h'
      · exact hsub (hs.taken m' h')
      · exact List.mem_append_right _ h'

theorem Inv.stop (hs : Inv s) : Inv s.stop where
  kept := hs.kept
  dropped := hs.dropped
  stopped h := ⟨rfl, (hs.stopped h).2⟩
  ended h := (hs.ended h).imp_right fun h => ⟨h.1, rfl⟩
  fits := hs.fits
  frame := hs.frame
  taken := hs.taken
  told := hs.told
  drained := hs.drained
  paced := hs.paced

/-- What has gone out, and what is in hand, was pushed first. -/
theorem Inv.in_order (hs : Inv s) : s.delivered ++ s.sender.hand <+: s.texts := by
  cases h : s.abandoned with
  | true => exact hs.dropped h
  | false => exact ⟨_, hs.kept h⟩

theorem mem_rest_of_nil {m : Message} {queue : List Message} (h : m ∈ rest ++ []) :
    m ∈ rest ++ queue := by
  rw [List.append_nil] at h
  exact List.mem_append_left _ h

theorem Inv.abandon (hs : Inv s) : Inv s.abandon := by
  obtain ⟨hdelivered, hsent⟩ := @delivered_log s s.abandon _ rfl rfl
  refine ⟨fun h => (by cases h), fun _ => ?_, fun _ => ⟨rfl, rfl⟩, fun _ => .inl rfl, ?_, hs.frame,
    fun m h => hs.taken m (mem_rest_of_nil h), fun _ => List.mem_append_right _ List.mem_cons_self, fun _ => ?_, ?_⟩
  · rw [hdelivered]
    exact hs.in_order
  · rw [hsent]
    exact hs.fits
  · exact drained_of_abandoned (List.mem_append_right _ List.mem_cons_self)
  · exact hs.paced.snoc fun h => absurd rfl h

/-! ## The sender -/

/-- It goes on with the same messages in hand. -/
theorem Inv.goto (hs : Inv s) {t : Sender} (hhand : t.hand = s.sender.hand)
    (hrest : t.rest ⊆ s.sender.rest) (hend : t ≠ .ended)
    (hframe : ∀ frame ∈ t.frame?, Fits s.pushed frame)
    (hdrained : t.mayAdd = true → Drained s.log) : Inv { s with sender := t } where
  kept h := by
    show s.delivered ++ t.hand ++ _ = _
    rw [hhand]
    exact hs.kept h
  dropped h := by
    show s.delivered ++ t.hand <+: _
    rw [hhand]
    exact hs.dropped h
  stopped := hs.stopped
  ended h := absurd h hend
  fits := hs.fits
  frame := hframe
  taken m h := by
    refine hs.taken m ?_
    exact (List.mem_append.mp h).elim (fun h => List.mem_append_left _ (hrest h))
      (List.mem_append_right _)
  told := hs.told
  drained := hdrained
  paced := hs.paced

/-- It returns, where it was abandoned or nothing is left. -/
theorem Inv.finish (hs : Inv s)
    (hend : s.abandoned = true ∨ s.sender.hand = [] ∧ s.queue = [] ∧ s.stopping = true)
    (hmay : s.sender.mayAdd = true) : Inv { s with sender := .ended } where
  kept h := by
    rcases hend with hend | ⟨hhand, -, -⟩
    · exact absurd (h.symm.trans hend) Bool.false_ne_true
    · have hkept := hs.kept h
      rw [hhand] at hkept
      exact hkept
  dropped h := by
    show s.delivered ++ [] <+: _
    rw [List.append_nil]
    exact (List.prefix_append _ _).trans (hs.dropped h)
  stopped := hs.stopped
  ended _ := hend.imp_right fun h => h.2
  fits := hs.fits
  frame frame h := by cases h
  taken m h := hs.taken m (List.mem_append_right _ h)
  told := hs.told
  drained _ := hs.drained hmay
  paced := hs.paced

theorem Inv.take (hs : Inv s) (hwaiting : s.sender = .waiting) :
    Inv { s with queue := [], sender := .batch [] s.queue } where
  kept h := by
    have hkept := hs.kept h
    rw [hwaiting] at hkept
    show s.delivered ++ s.queue.map Message.text ++ [] = s.texts
    rw [List.append_nil]
    simpa [Sender.hand] using hkept
  dropped h := by
    have hdropped := hs.dropped h
    rw [hwaiting] at hdropped
    show s.delivered ++ s.queue.map Message.text <+: _
    rw [(hs.stopped h).2]
    exact hdropped
  stopped h := ⟨(hs.stopped h).1, rfl⟩
  ended h := by cases h
  fits := hs.fits
  frame frame h := by
    obtain rfl := Option.some.inj h
    exact .inl (Nat.zero_le _)
  taken m h := by
    refine hs.taken m (List.mem_append_right _ ?_)
    have h' : m ∈ s.queue ++ [] := h
    rwa [List.append_nil] at h'
  told := hs.told
  drained _ := hs.drained (by rw [hwaiting]; rfl)
  paced := hs.paced

/-- A frame goes out that may: `rest` stays in hand. -/
theorem Inv.send (hs : Inv s) (hne : frame ≠ []) (hfits : Fits s.pushed frame)
    (hhand : s.sender.hand = carried frame ++ rest.map Message.text) (hrest : s.sender.rest = rest)
    (hmay : s.sender.mayAdd = true) : Inv (s.send frame rest) where
  kept h := by
    have hkept := hs.kept h
    rw [hhand] at hkept
    rw [delivered_send hne]
    show _ ++ rest.map Message.text ++ _ = _
    rw [List.append_assoc s.delivered]
    exact hkept
  dropped h := by
    have hdropped := hs.dropped h
    rw [hhand] at hdropped
    rw [delivered_send hne]
    show _ ++ rest.map Message.text <+: _
    rw [List.append_assoc]
    exact hdropped
  stopped := hs.stopped
  ended h := by cases h
  fits frame' h := by
    rw [sent_send] at h
    rcases List.mem_append.mp h with h | h
    · exact hs.fits frame' h
    · rw [List.mem_singleton.mp h]
      exact hfits
  frame frame' h := by cases h
  taken := by
    have htaken := hs.taken
    rw [hrest] at htaken
    exact htaken
  told h := List.mem_append_left _ (hs.told h)
  drained h := by cases h
  paced := hs.paced.snoc fun _ => hs.drained hmay

theorem fits_resume {pushed : List Message} (hrest : ∀ m ∈ rest, m ∈ pushed) :
    ∀ frame ∈ (resume rest).frame?, Fits pushed frame := by
  intro frame hframe
  cases rest with
  | nil => cases hframe
  | cons m rest =>
    obtain rfl := Option.some.inj hframe
    exact .inr ⟨m, hrest m List.mem_cons_self, rfl⟩

theorem rest_resume {m : Message} (h : m ∈ (resume rest).rest) : m ∈ rest := by
  cases rest with
  | nil => cases h
  | cons m' rest => exact List.mem_cons_of_mem _ h

theorem resume_ne_ended : resume rest ≠ .ended := by
  cases rest <;> simp [resume]

theorem Inv.saw (hs : Inv s) (hsent : s.sender = .sent rest) (unsent : Nat) :
    Inv { s with
      log := s.log ++ [.saw unsent]
      sender := if unsent > kMaxBuffered then .full rest else resume rest } := by
  have hlogged : Inv { s with log := s.log ++ [.saw unsent] } := by
    obtain ⟨hdelivered, hsents⟩ :=
      @delivered_log s { s with log := s.log ++ [.saw unsent] } _ rfl rfl
    refine ⟨fun h => ?_, fun h => ?_, hs.stopped, hs.ended, ?_, hs.frame, hs.taken,
      fun h => List.mem_append_left _ (hs.told h), fun h => (hs.drained h).snoc rfl,
      hs.paced.snoc fun h => absurd rfl h⟩
    · rw [hdelivered]
      exact hs.kept h
    · rw [hdelivered]
      exact hs.dropped h
    · rw [hsents]
      exact hs.fits
  have hhand : s.sender.hand = rest.map Message.text := by rw [hsent]; rfl
  have hrest : s.sender.rest = rest := by rw [hsent]; rfl
  by_cases hfull : unsent > kMaxBuffered
  · rw [if_pos hfull]
    refine hlogged.goto hhand.symm ?_ (fun h => by cases h) (fun _ h => by cases h)
      fun h => by cases h
    exact fun m h => hrest ▸ h
  · -- it has drained
    rw [if_neg hfull]
    refine hlogged.goto ((hand_resume rest).trans hhand.symm) ?_ resume_ne_ended
      (fits_resume fun m hm => ?_) fun _ => drained_saw (Nat.le_of_not_lt hfull)
    · exact fun m h => hrest ▸ rest_resume h
    · exact hs.taken m (List.mem_append_left _ (hrest.symm ▸ hm))

theorem Inv.run (hs : Inv s) (unsent : Nat) : Inv (run s unsent) := by
  unfold Outbox.run
  cases hsender : s.sender with
  | ended => exact hs
  | waiting =>
    dsimp only
    split
    · rename_i hqueue
      split
      · rename_i hstopping
        exact hs.finish (.inr ⟨by rw [hsender]; rfl, hqueue, hstopping⟩) (by rw [hsender]; rfl)
      · exact hs
    · exact hs.take hsender
  | batch frame rest =>
    have hframe : Fits s.pushed frame := hs.frame frame (by rw [hsender]; rfl)
    have hmay : s.sender.mayAdd = true := by rw [hsender]; rfl
    cases rest with
    | nil =>
      dsimp only
      split
      · -- an empty batch, which is not taken
        rename_i hempty
        subst hempty
        refine hs.goto (by rw [hsender]; rfl) (fun m h => by cases h) (fun h => by cases h)
          (fun _ h => by cases h) fun _ => hs.drained hmay
      · rename_i hne
        exact hs.send hne hframe (by rw [hsender]; rfl) (by rw [hsender]; rfl) hmay
    | cons m rest =>
      dsimp only
      split
      · rename_i habandoned
        exact hs.finish (.inl habandoned) hmay
      · refine hs.goto (by rw [hsender]; rfl) (by rw [hsender]; exact List.Subset.refl _)
          (fun h => by cases h) (fun frame' h => ?_) fun _ => hs.drained hmay
        obtain rfl := Option.some.inj h
        exact hframe
  | adding frame m rest =>
    have hframe : Fits s.pushed frame := hs.frame frame (by rw [hsender]; rfl)
    have hmay : s.sender.mayAdd = true := by rw [hsender]; rfl
    dsimp only
    split
    · rename_i hfull
      exact hs.send hfull.1 hframe (by rw [hsender]; rfl) (by rw [hsender]; rfl) hmay
    · rename_i hroom
      refine hs.goto ?_ ?_ (fun h => by cases h) (fun frame' h => ?_) fun _ => hs.drained hmay
      · rw [hsender]
        show carried (add frame m) ++ _ = carried frame ++ m.text :: _
        rw [carried_add, List.append_assoc]
        rfl
      · rw [hsender]
        exact List.subset_cons_self _ _
      · obtain rfl := Option.some.inj h
        -- a frame of one message, or one that stays below the limit
        by_cases hempty : frame = []
        · refine .inr ⟨m, hs.taken m ?_, ?_⟩
          · rw [hsender]
            exact List.mem_append_left _ List.mem_cons_self
          · rw [add, if_pos hempty]
        · left
          have hle : ¬ frame.length + m.text.length + 1 > kFrameBytes := fun h => hroom ⟨hempty, h⟩
          rw [add, if_neg hempty, List.length_append, List.length_cons]
          omega
  | sent rest => exact hs.saw hsender unsent
  | full rest =>
    have hrest : ∀ m ∈ rest, m ∈ s.pushed := by
      intro m hm
      refine hs.taken m (List.mem_append_left _ ?_)
      rw [hsender]
      exact hm
    dsimp only
    split
    · rename_i habandoned
      refine hs.goto ?_ ?_ resume_ne_ended (fits_resume hrest) fun _ =>
        drained_of_abandoned (hs.told habandoned)
      · rw [hsender]
        exact hand_resume rest
      · rw [hsender]
        exact fun m h => rest_resume h
    · refine hs.goto (by rw [hsender]; rfl) (by rw [hsender]; exact List.Subset.refl _)
        (fun h => by cases h) (fun _ h => by cases h) fun h => by cases h

theorem Inv.step (hs : Inv s) (e : Event) : Inv (step s e) := by
  cases e with
  | push m => exact hs.push m
  | stop => exact hs.stop
  | abandon => exact hs.abandon
  | sender unsent => exact hs.run unsent

/-! ## The end -/

theorem left_resume (rest : List Message) : (resume rest).left ≤ 4 * rest.length + 1 := by
  cases rest with
  | nil => exact Nat.le_refl _
  | cons m rest =>
    show 4 * rest.length + 4 ≤ 4 * (rest.length + 1) + 1
    omega

theorem run_frame (s : State) (unsent : Nat) : (run s unsent).stopping = s.stopping ∧
    (run s unsent).abandoned = s.abandoned ∧ (run s unsent).pushed = s.pushed := by
  unfold run
  repeat' split
  all_goals exact ⟨rfl, rfl, rfl⟩

/-- A step of the sender into a connection that has drained brings the end nearer. -/
theorem left_run (hstopping : s.stopping = true) (hle : unsent ≤ kMaxBuffered)
    (hgoing : s.sender ≠ .ended) : (run s unsent).left < s.left := by
  unfold run
  cases hsender : s.sender with
  | ended => exact absurd hsender hgoing
  | waiting =>
    cases hqueue : s.queue with
    | nil =>
      dsimp only
      rw [if_pos hstopping]
      simp [State.left, hsender, hqueue, Sender.left]
    | cons m queue =>
      show 4 * (m :: queue).length + 4 + 0 < _
      simp only [State.left, hsender, hqueue, Sender.left, List.cons_ne_nil, if_false]
      omega
  | batch frame rest =>
    cases rest with
    | nil =>
      dsimp only
      split
      · show 1 + _ < _
        rw [State.left, hsender]
        exact Nat.add_lt_add_right (by decide : 1 < 4) _
      · show 2 + _ < _
        rw [State.left, hsender]
        exact Nat.add_lt_add_right (by decide : 2 < 4) _
    | cons m rest =>
      dsimp only
      rw [State.left, State.left, hsender]
      refine Nat.add_lt_add_right ?_ _
      dsimp only
      split
      · exact Nat.succ_pos _
      · show 4 * rest.length + 7 < 4 * (rest.length + 1) + 4
        omega
  | adding frame m rest =>
    dsimp only
    split
    · show 4 * (rest.length + 1) + 2 + _ < _
      rw [State.left, hsender]
      refine Nat.add_lt_add_right ?_ _
      show _ < 4 * rest.length + 7
      omega
    · rw [State.left, State.left, hsender]
      refine Nat.add_lt_add_right ?_ _
      show 4 * rest.length + 4 < 4 * rest.length + 7
      omega
  | sent rest =>
    dsimp only
    rw [if_neg (Nat.not_lt.mpr hle), State.left, State.left, hsender]
    exact Nat.add_lt_add_right (Nat.lt_succ_of_le (left_resume rest)) _
  | full rest =>
    dsimp only
    rw [State.left, State.left, hsender]
    refine Nat.add_lt_add_right ?_ _
    dsimp only
    split
    · exact Nat.lt_succ_of_le (Nat.le_succ_of_le (left_resume rest))
    · exact Nat.lt_succ_self _

theorem left_pos (hgoing : s.sender ≠ .ended) : 0 < s.left := by
  have hpos : 0 < s.sender.left := by
    cases hsender : s.sender with
    | ended => exact absurd hsender hgoing
    | _ => exact Nat.succ_pos _
  exact Nat.lt_of_lt_of_le hpos (Nat.le_add_right _ _)

theorem run_ended (hended : s.sender = .ended) (looks : List Nat) : looks.foldl run s = s := by
  induction looks with
  | nil => rfl
  | cons unsent looks ih =>
    have hrun : run s unsent = s := by rw [run, hended]
    rw [List.foldl_cons, hrun, ih]

/-- Stopped, and drained from now on: the sender comes to its end. -/
theorem ended_of_left {looks : List Nat} (hstopping : s.stopping = true)
    (hlooks : ∀ unsent ∈ looks, unsent ≤ kMaxBuffered) (hleft : s.left ≤ looks.length) :
    (looks.foldl run s).sender = .ended := by
  induction looks generalizing s with
  | nil =>
    by_contra hgoing
    exact absurd (left_pos hgoing) (Nat.not_lt.mpr hleft)
  | cons unsent looks ih =>
    by_cases hended : s.sender = .ended
    · rw [run_ended hended]
      exact hended
    · obtain ⟨hle, hlooks⟩ := List.forall_mem_cons.mp hlooks
      have hlt := left_run hstopping hle hended
      rw [List.length_cons] at hleft
      exact ih ((run_frame s unsent).1.trans hstopping) hlooks (by omega)

theorem looks_frame (s : State) (looks : List Nat) : (looks.foldl run s).abandoned = s.abandoned ∧
    (looks.foldl run s).texts = s.texts := by
  induction looks generalizing s with
  | nil => exact ⟨rfl, rfl⟩
  | cons unsent looks ih =>
    obtain ⟨-, habandoned, hpushed⟩ := run_frame s unsent
    obtain ⟨hfirst, hsecond⟩ := ih (run s unsent)
    refine ⟨hfirst.trans habandoned, hsecond.trans ?_⟩
    rw [State.texts, hpushed, State.texts]

theorem Inv.looks (hs : Inv s) (looks : List Nat) : Inv (looks.foldl Outbox.run s) := by
  induction looks generalizing s with
  | nil => exact hs
  | cons unsent looks ih => exact ih (hs.run unsent)

/-- At the end everything has been sent. -/
theorem Inv.complete (hs : Inv s) (hended : s.sender = .ended) (hkept : s.abandoned = false) :
    s.delivered = s.texts := by
  have hall := hs.kept hkept
  obtain habandoned | ⟨hqueue, -⟩ := hs.ended hended
  · exact absurd (hkept.symm.trans habandoned) Bool.false_ne_true
  · rw [hended, hqueue] at hall
    simpa [Sender.hand] using hall

/-! ## The headline -/

theorem inv_of_reachable (hs : system.Reachable s) : Inv s := by
  refine System.invariant (fun s hinit => ?_) (fun s e s' _ hs hstep => ?_) s hs
  · rw [hinit]
    exact inv_init
  · rw [hstep]
    exact hs.step e

/-- **The frames carry the messages**, however pushes, the stop, the abandoning and the sender's
steps come, and whatever the connection says it has not sent. -/
theorem frames_carry_messages : ∀ s, system.Reachable s → Sound s := by
  intro s hs
  have hinv := inv_of_reachable hs
  refine ⟨?_, hinv.complete, hinv.fits, hinv.paced, fun hstopping looks hlooks hleft => ?_⟩
  · exact (List.prefix_append _ _).trans hinv.in_order
  · have hended := ended_of_left hstopping hlooks hleft
    obtain ⟨habandoned, htexts⟩ := looks_frame s looks
    refine ⟨hended, fun hkept => ?_⟩
    exact ((hinv.looks looks).complete hended (habandoned.trans hkept)).trans htexts

/-- Two messages, one of them pushed while the other is on its way. -/
def twoFrames : List Event :=
  [.push ⟨[104, 105], by decide, by decide⟩, .sender 0, .sender 0, .sender 0, .sender 0,
    .push ⟨[106], by decide, by decide⟩, .stop, .sender 0, .sender 0, .sender 0, .sender 0,
    .sender 0, .sender 0, .sender 0]

theorem frames_carry_messages_twoFrames : Sound (twoFrames.foldl step {}) ∧
    (twoFrames.foldl step {}).sender = .ended ∧ (twoFrames.foldl step {}).sent = [[104, 105], [106]] :=
  ⟨frames_carry_messages _ (System.reachable_foldl _ _ _), by decide, by decide⟩

end Jovian.Outbox
