import Jovian.Lib.Transition

/-!
# ClientIopub — the signal that output is queued (`client_iopub.cpp`)

One thread receives the kernel's output: it queues a message, exchanges `m_signalled` for `true`,
and sends a signal where it was `false`. Another waits (`ClientZmqImpl::waitForActivity`): it looks
at the queue and at the other sockets, polls, and calls `clearQueuedSignal`, which stores `false`
and then reads every signal there is. In between it pops messages. Each of these is a step of its
own here, and the steps of the two threads interleave in any order.

* **`never_lost`** — while `clearQueuedSignal` reads no signal that was sent after its own store, a
  wait with a new message in the queue always has a signal (`Awake`).
* **`lost_after`** — and where it reads one, some run from there loses the next message's.
-/

namespace Jovian.IopubSignal

open Transition (System)

/-! ## The two threads -/

/-- Where `ClientIopub::run` is. -/
inductive Receiver where
  /-- In `zmq::poll`, or it reads a message. -/
  | polling
  /-- A message is queued, and `m_signalled` not exchanged yet. -/
  | queued
  /-- `m_signalled` was `false`: the signal is sent next. -/
  | signalling
deriving DecidableEq

/-- Where the waiting thread is. -/
inductive Waiter where
  /-- Outside `waitForActivity`. -/
  | away
  /-- The queue was empty; the other sockets are asked next. -/
  | asking
  /-- In `zmq::poll`. -/
  | waiting
  /-- Before the store of `clearQueuedSignal`. -/
  | clearing
  /-- In its loop. -/
  | eating
deriving DecidableEq

structure State where
  /-- `m_messageQueue`: each message is its number among those queued. -/
  queue : List Nat := []
  signalled : Bool := false
  /-- The signals that were sent and not read. -/
  signals : Nat := 0
  receiver : Receiver := .polling
  waiter : Waiter := .away
  /-- How many messages were queued, ever. -/
  made : Nat := 0
  /-- How many were when `clearQueuedSignal` last returned. -/
  cleared : Nat := 0
deriving DecidableEq

inductive Event where
  /-- `m_messageQueue.push` -/
  | push
  /-- `m_signalled.exchange(true)` -/
  | exchange
  /-- `m_signalSend.send` -/
  | send
  /-- `popIopubMessage` -/
  | pop
  /-- `waitForActivity` is called, and reads `iopubQueueSize`. -/
  | look
  /-- Whether one of the other sockets has a message. -/
  | others (hasMessage : Bool)
  /-- `zmq::poll` returns, for whichever socket, at the timeout, or interrupted. -/
  | wake
  /-- `m_signalled.store(false)` -/
  | store
  /-- `m_signalReceive.recv`, which ends the loop where there is none. -/
  | recv
deriving DecidableEq

/-- A step of a thread; one whose turn it is not changes nothing. -/
def step (s : State) : Event → State
  | .push =>
    if s.receiver = .polling then
      { s with queue := s.queue ++ [s.made], made := s.made + 1, receiver := .queued }
    else s
  | .exchange =>
    if s.receiver = .queued then
      { s with signalled := true, receiver := if s.signalled then .polling else .signalling }
    else s
  | .send =>
    if s.receiver = .signalling then { s with signals := s.signals + 1, receiver := .polling } else s
  | .pop => if s.waiter = .away then { s with queue := s.queue.tail } else s
  | .look =>
    if s.waiter = .away then { s with waiter := if s.queue = [] then .asking else .clearing } else s
  | .others hasMessage =>
    if s.waiter = .asking then { s with waiter := if hasMessage then .clearing else .waiting } else s
  | .wake => if s.waiter = .waiting then { s with waiter := .clearing } else s
  | .store =>
    if s.waiter = .clearing then { s with signalled := false, waiter := .eating } else s
  | .recv =>
    if s.waiter = .eating then
      if s.signals = 0 then { s with waiter := .away, cleared := s.made }
      else { s with signals := s.signals - 1 }
    else s

def threads : System State Event := System.ofFn {} step

/-! ## What a wait may count on -/

/-- In the queue since `clearQueuedSignal` last returned. -/
def HasNew (s : State) : Prop := ∃ m ∈ s.queue, s.cleared ≤ m

/-- The receiving thread has still to send: it is about to, or its exchange will tell it to. -/
def AboutToSend (s : State) : Prop :=
  s.receiver = .signalling ∨ s.receiver = .queued ∧ s.signalled = false

/-- No wait with a new message is without a signal. -/
def Awake (s : State) : Prop :=
  s.waiter = .waiting → HasNew s → 0 < s.signals ∨ AboutToSend s

/-- A read of `clearQueuedSignal` that takes the last signal of a message which came after its
store: `m_signalled` stays `true`. -/
def TakesLast (s : State) : Event → Prop
  | .recv => s.waiter = .eating ∧ s.signals = 1 ∧ s.signalled = true ∧ s.receiver ≠ .signalling
  | _ => False

instance (s : State) (e : Event) : Decidable (TakesLast s e) := by
  cases e <;> unfold TakesLast <;> infer_instance

/-! ## The flag, the signals and the queue -/

structure Inv (s : State) : Prop where
  /-- The flag is up for a signal that is there or about to be. -/
  flag : s.signalled = true → 0 < s.signals ∨ s.receiver = .signalling
  numbered : ∀ m ∈ s.queue, m < s.made
  past : s.cleared ≤ s.made
  /-- Once a new message is queued, the flag is up or about to be, until the store. -/
  new : s.waiter ≠ .eating → HasNew s → s.signalled = true ∨ s.receiver = .queued

theorem Inv.awake {s : State} (h : Inv s) : Awake s := by
  intro hwait hnew
  have hwaiter : s.waiter ≠ .eating := by simp [hwait]
  cases hflag : s.signalled with
  | true =>
    apply (h.flag hflag).imp_right
    exact .inl
  | false =>
    have hqueued := (h.new hwaiter hnew).resolve_left (by simp [hflag])
    exact .inr (.inr ⟨hqueued, hflag⟩)

/-- The receiving thread keeps it. -/
theorem inv_receiver {s : State} (h : Inv s) {e : Event} (he : e = .push ∨ e = .exchange ∨ e = .send) :
    Inv (step s e) := by
  rcases he with rfl | rfl | rfl
  · rw [step]
    split
    · next hturn =>
      refine ⟨fun hflag => .inl ?_, fun m hm => ?_, Nat.le_succ_of_le h.past, fun _ _ => .inr rfl⟩
      · exact (h.flag hflag).resolve_right (by simp [hturn])
      · rcases List.mem_append.1 hm with hm | hm
        · exact Nat.lt_succ_of_lt (h.numbered m hm)
        · rw [List.mem_singleton.1 hm]
          exact Nat.lt_succ_self _
    · exact h
  · rw [step]
    split
    · refine ⟨fun _ => ?_, h.numbered, h.past, fun _ _ => .inl rfl⟩
      cases hflag : s.signalled with
      | false => exact .inr rfl
      | true =>
        apply (h.flag hflag).imp_right
        intro hsend
        simp_all
    · exact h
  · rw [step]
    split
    · next hturn =>
      refine ⟨fun _ => .inl (Nat.succ_pos _), h.numbered, h.past, fun hwait hnew => ?_⟩
      exact .inl ((h.new hwait hnew).resolve_right (by simp [hturn]))
    · exact h

/-- And the waiting thread does, while it takes no last signal. -/
theorem inv_step {s : State} (h : Inv s) {e : Event} (hkeep : ¬ TakesLast s e) : Inv (step s e) := by
  cases e with
  | push => exact inv_receiver h (.inl rfl)
  | exchange => exact inv_receiver h (.inr (.inl rfl))
  | send => exact inv_receiver h (.inr (.inr rfl))
  | pop =>
    rw [step]
    split
    · refine ⟨h.flag, fun m hm => h.numbered m (List.mem_of_mem_tail hm), h.past, ?_⟩
      rintro hwait ⟨m, hm, hnew⟩
      exact h.new hwait ⟨m, List.mem_of_mem_tail hm, hnew⟩
    · exact h
  | look =>
    rw [step]
    split
    · next hturn => exact ⟨h.flag, h.numbered, h.past, fun _ hnew => h.new (by simp [hturn]) hnew⟩
    · exact h
  | others hasMessage =>
    rw [step]
    split
    · next hturn => exact ⟨h.flag, h.numbered, h.past, fun _ hnew => h.new (by simp [hturn]) hnew⟩
    · exact h
  | wake =>
    rw [step]
    split
    · next hturn => exact ⟨h.flag, h.numbered, h.past, fun _ hnew => h.new (by simp [hturn]) hnew⟩
    · exact h
  | store =>
    rw [step]
    split
    · exact ⟨fun hflag => (Bool.false_ne_true hflag).elim, h.numbered, h.past,
        fun hwait => (hwait rfl).elim⟩
    · exact h
  | recv =>
    rw [step]
    split
    · next hturn =>
      split
      · refine ⟨h.flag, h.numbered, Nat.le_refl _, ?_⟩
        -- every message that is queued now was queued before the return
        rintro - ⟨m, hm, hnew⟩
        exact absurd (h.numbered m hm) (Nat.not_lt.2 hnew)
      · next hsome =>
        refine ⟨fun hflag => ?_, h.numbered, h.past, fun hwait => (hwait hturn).elim⟩
        rcases h.flag hflag with hpos | hsend
        · by_cases hsend : s.receiver = .signalling
          · exact .inr hsend
          · have hmore : s.signals ≠ 1 := fun hlast => hkeep ⟨hturn, hlast, hflag, hsend⟩
            left
            show 0 < s.signals - 1
            omega
        · exact .inr hsend
    · exact h

theorem inv_init : Inv {} := by
  refine ⟨fun h => (Bool.false_ne_true h).elim, fun m hm => ?_, Nat.le_refl _, ?_⟩
  · exact absurd hm List.not_mem_nil
  · rintro - ⟨m, hm, -⟩
    exact absurd hm List.not_mem_nil

theorem inv_reachable {s : State} (h : (threads.when fun s e => ¬ TakesLast s e).Reachable s) :
    Inv s :=
  System.invariant_ofFn inv_init (fun _ _ hs hkeep => inv_step hs hkeep) h

/-- **No wake-up is lost** in a run in which `clearQueuedSignal` never takes the last signal of a
message that came after its store. -/
theorem never_lost {s : State} (h : (threads.when fun s e => ¬ TakesLast s e).Reachable s) : Awake s :=
  (inv_reachable h).awake

/-- The usual run: a message comes while the waiter waits. -/
def wokenRun : List Event := [.look, .others false, .push, .exchange, .send, .wake, .store, .recv,
  .recv, .pop, .look, .others false, .push, .exchange, .send]

theorem never_lost_wokenRun :
    Awake (wokenRun.foldl step {}) ∧ (wokenRun.foldl step {}).waiter = .waiting ∧
      HasNew (wokenRun.foldl step {}) := by
  refine ⟨never_lost ?_, by decide, 1, by decide, by decide⟩
  have hcheck : System.allSteps step (fun s e => decide (¬ TakesLast s e)) {} wokenRun = true := by decide
  have hrun := System.reachable_of_allSteps hcheck
  simp only [decide_eq_true_eq] at hrun
  exact hrun

/-! ## The signal that is taken -/

/-- A message is queued and signalled between the store and the reads; the next one signals
nothing. -/
def lostRun : List Event := [.look, .others false, .wake, .store, .push, .exchange, .send, .recv,
  .recv, .pop, .look, .others false, .push, .exchange]

theorem lostRun_not_awake : ∃ s, threads.Reachable s ∧ ¬ Awake s := by
  refine ⟨lostRun.foldl step {}, System.reachable_foldl _ _ _, fun h => ?_⟩
  rcases h (by decide) ⟨1, by decide, by decide⟩ with hpos | hsend | ⟨hqueued, -⟩
  · exact absurd hpos (by decide)
  · exact absurd hsend (by decide)
  · exact absurd hqueued (by decide)

theorem foldl_pop {s : State} (h : s.waiter = .away) (n : Nat) :
    (List.replicate n Event.pop).foldl step s = { s with queue := s.queue.drop n } := by
  induction n generalizing s with
  | zero => rfl
  | succ n ih =>
    have hpop : step s .pop = { s with queue := s.queue.tail } := if_pos h
    have hnext := ih (s := { s with queue := s.queue.tail }) h
    rw [List.replicate_succ, List.foldl_cons, hpop, hnext]
    simp only [List.drop_tail]

/-- The flag is up, no signal is there, and none is to be sent. -/
structure Deaf (s : State) : Prop where
  flag : s.signalled = true
  none : s.signals = 0
  silent : s.receiver ≠ .signalling
  eating : s.waiter = .eating

theorem deaf_of_takesLast {s : State} {e : Event} (h : TakesLast s e) : Deaf (step s e) := by
  cases e with
  | recv =>
    obtain ⟨hwait, hone, hflag, hsend⟩ := h
    have hstep : step s .recv = { s with signals := 0 } := by
      rw [step, if_pos hwait, if_neg (by omega), hone]
    rw [hstep]
    exact ⟨hflag, rfl, hsend, hwait⟩
  | _ => exact h.elim

/-- What the two threads may do next: the read that finds nothing, the pops, and a wait. -/
def drained (s : State) : List Event :=
  [.exchange, .recv] ++ List.replicate s.queue.length .pop ++ [.look, .others false, .push]

theorem not_awake_drained {s : State} (h : Deaf s) : ¬ Awake ((drained s).foldl step s) := by
  obtain ⟨hflag, hnone, hsilent, heating⟩ := h
  have hexchange : step s .exchange = { s with receiver := .polling } := by
    rw [step]
    split
    · rw [hflag]
    · next hturn =>
      cases hr : s.receiver with
      | polling => rw [← hr]
      | queued => exact absurd hr hturn
      | signalling => exact absurd hr hsilent
  have hend : (drained s).foldl step s =
      { s with queue := [s.made], made := s.made + 1, cleared := s.made, waiter := .waiting,
               receiver := .queued } := by
    rw [drained, List.foldl_append, List.foldl_append]
    show [Event.look, .others false, .push].foldl step
      ((List.replicate s.queue.length .pop).foldl step (step (step s .exchange) .recv)) = _
    rw [hexchange]
    have hrecv : step { s with receiver := .polling } .recv =
        { s with receiver := .polling, waiter := .away, cleared := s.made } := by
      simp [step, heating, hnone]
    rw [hrecv, foldl_pop rfl]
    simp [step]
  rw [hend]
  intro hawake
  have hcases := hawake rfl ⟨s.made, List.mem_singleton_self _, Nat.le_refl _⟩
  simp [AboutToSend, hnone, hflag] at hcases

/-- **A signal that is taken is missed**: from every step that takes the last signal, some run
leads to a wait with a new message and no signal. -/
theorem lost_after {s : State} {e : Event} (h : TakesLast s e) :
    ∃ es : List Event, ¬ Awake (es.foldl step (step s e)) :=
  ⟨_, not_awake_drained (deaf_of_takesLast h)⟩

end Jovian.IopubSignal
