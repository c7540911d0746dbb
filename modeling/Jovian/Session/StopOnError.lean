import Jovian.Session.Conversation
import Jovian.Kernel.AbortQueue

/-!
# Jovian — `stop_on_error`, from the client to the kernel

An execution that fails with `stopOnError` takes down what is queued behind it: in the
client's queue (`abortQueued`), and in the kernel's (`abortQueue`). What the client sends
once it knows of the failure is not behind it. The kernel sees to that by aborting before it
replies.

The client does not wait for the reply, though: the `error` message, which the kernel
publishes before it begins to abort, settles the execution, and the next one is sent at once
(`sent_after_the_error_aborted`).

* **`aborts_only_what_waited`** — in every run in which an execution reaches the kernel only
  when the kernel is through with those settled before it was sent (`timely`), none is
  aborted for one that was settled when it was sent; and what is not aborted is run.
-/

namespace Jovian.Conversation

open ExecutionQueue (QueuedExecution JupyterMessage Content Action)

/-! ## What is promised -/

structure Spared (s : State) : Prop where
  /-- An execution is not aborted for one that had been settled when it was sent. -/
  spared : ∀ d m x f, (d, m) ∈ s.aborted → (d, x) ∈ s.arrived → (m, f) ∈ s.arrived →
    f.item.ticket ∉ settled (before s.queue.log x)
  /-- An execution the kernel hands over is run, or it was aborted for another. -/
  run : ∀ d x route, (d, x) ∈ s.arrived → .handed d route ∈ s.kernel.log →
    route = .shellListener ∨ route = .abortCallback ∧ ∃ m, (d, m) ∈ s.aborted

/-- The kernel is through with the client's execution `f`. -/
def through (s : State) (f : Sent) : Bool :=
  s.arrived.any fun (m, g) => g = f && Server.Through s.kernel m

/-- An execution reaches the kernel only when the kernel is through with every execution that
could abort it and whose promise had been settled before it was sent. -/
def timely (s : State) : Event → Bool
  | .arrive =>
    match s.requests with
    | [] => true
    | x :: _ => (sends s.queue.log).all fun f =>
        !(f.request.aborts && decide (f.item.ticket ∈ settled (before s.queue.log x))) || through s f
  | _ => true

/-! ## The log -/

variable {cfg : ExecutionQueue.Config} {accepts : Server.MsgType → Bool}

theorem mem_sends {log : List Action} {x : Sent} : x ∈ sends log ↔ .sent x.item x.msgId ∈ log := by
  constructor
  · intro h
    obtain ⟨a, ha, hx⟩ := List.mem_filterMap.mp h
    cases a with
    | sent item msgId =>
      obtain rfl : { item, msgId } = x := by simpa [sent?] using hx
      exact ha
    | _ => simp [sent?] at hx
  · exact fun h => List.mem_filterMap.mpr ⟨_, h, rfl⟩

/-- What was sent is sent at the same place of every longer log. -/
theorem before_append {log : List Action} (rest : List Action) {x : Sent} (hx : x ∈ sends log) :
    before (log ++ rest) x = before log x := by
  unfold before
  induction log with
  | nil => cases hx
  | cons a log ih =>
    by_cases ha : a = .sent x.item x.msgId
    · simp [ha]
    · have hlog : x ∈ sends log := by
        rw [mem_sends] at hx ⊢
        exact (List.mem_cons.mp hx).resolve_left (Ne.symm ha)
      simpa [ha] using ih hlog

theorem sends_prefix {log log' : List Action} (h : log <+: log') : sends log <+: sends log' :=
  h.filterMap sent?

/-- The tickets of the executions sent are those of the queue's own list. -/
theorem sends_item (q : ExecutionQueue.State) : (sends q.log).map Sent.item = q.sent := by
  unfold sends ExecutionQueue.State.sent
  rw [List.map_filterMap]
  congr 1
  funext a
  cases a <;> rfl

/-- No execution is sent twice. -/
theorem sends_nodup {q : ExecutionQueue.State} (h : ExecutionQueue.Ledger q) :
    (sends q.log).Nodup := by
  have htickets := h.nodup_tickets
  rw [List.map_append, ← sends_item, List.nodup_append] at htickets
  exact (htickets.1.of_map _).of_map _

/-! ## The wire -/

/-- What is on the wire, and in the kernel, are the executions the queue has sent. -/
structure Linked (cfg : ExecutionQueue.Config) (accepts : Server.MsgType → Bool) (s : State) :
    Prop where
  queue : (ExecutionQueue.system cfg).Reachable s.queue
  kernel : (Server.system accepts).Reachable s.kernel
  sent : sends s.queue.log = s.arrived.map Prod.snd ++ s.requests
  arrived : ∀ m x, (m, x) ∈ s.arrived → m ∈ s.kernel.arrivedShell ∧ m.request = x.request
  aborted : ∀ d m, (d, m) ∈ s.aborted →
    d.id < s.kernel.arrivals ∧ m.id < s.kernel.arrivals ∧ m.request.aborts = true
  noted : ∀ d, .handed d .abortCallback ∈ s.kernel.log → ∃ m, (d, m) ∈ s.aborted

theorem linked_init : Linked cfg accepts {} where
  queue := .init rfl
  kernel := .init rfl
  sent := rfl
  arrived := by simp
  aborted := by simp
  noted := by simp

section Linked

variable {s : State} (h : Linked cfg accepts s)

include h

theorem Linked.ledger : ExecutionQueue.Ledger s.queue :=
  ExecutionQueue.ledger_reachable _ h.queue

theorem Linked.mem_sends {m : Server.Message} {x : Sent} (hx : (m, x) ∈ s.arrived) :
    x ∈ sends s.queue.log := by
  rw [h.sent]
  exact List.mem_append_left _ (List.mem_map_of_mem hx)

/-- An execution arrives once. -/
theorem Linked.arrived_once {m m' : Server.Message} {x : Sent} (hx : (m, x) ∈ s.arrived)
    (hx' : (m', x) ∈ s.arrived) : m = m' := by
  have hnodup := sends_nodup h.ledger
  rw [h.sent, List.nodup_append] at hnodup
  have := List.inj_on_of_nodup_map hnodup.1 hx hx' rfl
  exact congrArg Prod.fst this

theorem Linked.callback (e : ExecutionQueue.Event) : Linked cfg accepts (callback cfg s e) where
  queue := .step h.queue rfl
  kernel := h.kernel
  sent := by
    obtain ⟨new, hnew⟩ := sends_prefix (@ExecutionQueue.step_log cfg s.queue e)
    show sends (ExecutionQueue.step cfg s.queue e).log =
      s.arrived.map Prod.snd ++ (s.requests ++ List.drop _ (sends (ExecutionQueue.step cfg s.queue e).log))
    rw [← hnew, List.drop_left, ← List.append_assoc, ← h.sent]
  arrived := h.arrived
  aborted := h.aborted
  noted := h.noted

/-- What is on the way to the client is another matter. -/
theorem Linked.wires (reply : Content) (iopub shell stdin : List JupyterMessage) :
    Linked cfg accepts { s with reply, iopub, shell, stdin } :=
  ⟨h.queue, h.kernel, h.sent, h.arrived, h.aborted, h.noted⟩

omit h in
/-- What the client gets goes to its queue, and is on the way no more. -/
theorem receive_eq (s : State) (channel : Channel) : receive cfg s channel = s ∨
    ∃ iopub shell stdin e,
      receive cfg s channel = Conversation.callback cfg { s with iopub, shell, stdin } e := by
  cases channel with
  | iopub | shell | stdin =>
    simp only [Conversation.receive]
    split
    · exact .inl rfl
    · exact .inr ⟨_, _, _, _, rfl⟩

theorem Linked.receive (channel : Channel) : Linked cfg accepts (receive cfg s channel) := by
  rcases receive_eq s channel with heq | ⟨iopub, shell, stdin, e, heq⟩ <;> rw [heq]
  · exact h
  · exact (h.wires s.reply iopub shell stdin).callback e

theorem Linked.arrive : Linked cfg accepts (arrive accepts s) := by
  unfold Conversation.arrive
  split
  · exact h
  · next x rest hrequests =>
    refine ⟨h.queue, .step (e := .arriveShell x.request) h.kernel rfl, ?_, ?_, ?_, h.noted⟩
    · rw [h.sent, hrequests]
      simp
    · intro m y hy
      rcases List.mem_append.mp hy with hy | hy
      · obtain ⟨hm, hrequest⟩ := h.arrived m y hy
        exact ⟨List.mem_append_left _ hm, hrequest⟩
      · obtain ⟨rfl, rfl⟩ : m = ⟨s.kernel.arrivals, x.request⟩ ∧ y = x := by simpa using hy
        exact ⟨List.mem_append_right _ (List.mem_singleton_self _), rfl⟩
    · intro d m hd
      obtain ⟨hdid, hmid, haborts⟩ := h.aborted d m hd
      have hle : s.kernel.arrivals ≤ (Server.step accepts s.kernel (.arriveShell x.request)).arrivals :=
        (Server.Move.arriveShell (q := s.kernel.toQueues) x.request).arrivals_le
      exact ⟨Nat.lt_of_lt_of_le hdid hle, Nat.lt_of_lt_of_le hmid hle, haborts⟩

end Linked

/-- What the kernel sends changes only what is on the way to the client. -/
theorem emit_eq (s : State) (m : Server.Message) (channel : Channel) (message : JupyterMessage) :
    ∃ iopub shell stdin, s.emit m channel message = { s with iopub, shell, stdin } := by
  unfold State.emit
  split
  · exact ⟨_, _, _, rfl⟩
  · cases channel <;> exact ⟨_, _, _, rfl⟩

/-- So does what the interpreter publishes. -/
theorem publish_eq (s : State) (message : JupyterMessage) :
    ∃ iopub shell stdin, publish s message = { s with iopub, shell, stdin } := by
  unfold publish
  split
  · split
    · exact emit_eq _ _ _ _
    · exact ⟨_, _, _, rfl⟩
  · exact ⟨_, _, _, rfl⟩

/-- What a step of the kernel notes as aborted. -/
def abortedIn (s : State) : Server.Event → List (Server.Message × Server.Message)
  | .main _ _ => Server.abortedBy s.kernel
  | _ => []

theorem speak_eq (s : State) (error : Bool) (content : Content) :
    ∃ reply iopub shell stdin, speak s s.kernel.main error content =
      { s with reply, iopub, shell, stdin, aborted := s.aborted ++ Server.abortedBy s.kernel } := by
  unfold speak Server.abortedBy
  cases s.kernel.main with
  | abortDeferred m again =>
    refine ⟨s.reply, s.iopub, s.shell, s.stdin, ?_⟩
    cases s.kernel.deferredShell <;> simp
  | abortSocket m =>
    refine ⟨s.reply, s.iopub, s.shell, s.stdin, ?_⟩
    cases s.kernel.shell <;> simp
  | abortingDeferred m again d | abortingSocket m d =>
    simp only [List.append_nil]
    split
    · obtain ⟨iopub, shell, stdin, heq⟩ := emit_eq s d .shell abortedReply
      exact ⟨s.reply, iopub, shell, stdin, heq⟩
    · exact ⟨_, _, _, _, rfl⟩
  | replying m =>
    obtain ⟨iopub, shell, stdin, heq⟩ := emit_eq s m .shell (executeReply s.reply)
    simp only [List.append_nil, heq]
    obtain ⟨iopub', shell', stdin', heq'⟩ :=
      emit_eq { s with iopub, shell, stdin } m .iopub idleStatus
    exact ⟨s.reply, iopub', shell', stdin', heq'⟩
  | executing => exact ⟨_, s.iopub, s.shell, s.stdin, by rw [List.append_nil]⟩
  | _ => exact ⟨s.reply, s.iopub, s.shell, s.stdin, by rw [List.append_nil]⟩

/-- **A step of the kernel**, but for what it puts on the wire. -/
theorem kernelStep_eq (s : State) (e : Server.Event) (content : Content) :
    ∃ reply iopub shell stdin, kernelStep accepts s e content =
      { s with
        reply, iopub, shell, stdin, kernel := Server.step accepts s.kernel e
        aborted := s.aborted ++ abortedIn s e } := by
  cases e with
  | main error b =>
    obtain ⟨reply, iopub, shell, stdin, heq⟩ := speak_eq s error content
    exact ⟨reply, iopub, shell, stdin, by simp only [kernelStep, heq, abortedIn]⟩
  | _ => exact ⟨s.reply, s.iopub, s.shell, s.stdin, by simp [kernelStep, abortedIn]⟩

section Linked

variable {s : State} (h : Linked cfg accepts s)

include h

theorem Linked.aborts {e : Server.Event} {d m : Server.Message} (hd : (d, m) ∈ abortedIn s e) :
    d ∈ s.kernel.arrivedShell ∧ m.id < s.kernel.arrivals ∧ m.request.aborts = true ∧
      s.kernel.main.current = some m := by
  have hq := (Server.refines_traffic accepts).reachable _ h.kernel
  cases e with
  | main a b =>
    obtain ⟨hline, haborting⟩ := Server.mem_abortedBy hd
    have hcurrent := Server.MainPc.current_of_aborting haborting
    refine ⟨(Server.traffic_lines _ hq).shell.subset hline, ?_,
      Server.abortsOnError _ h.kernel m haborting, hcurrent⟩
    -- it has been handed over, so it has arrived
    have hunder : s.kernel.main.underWay = some m := by
      cases hmain : s.kernel.main <;> simp_all [Server.MainPc.aborting, Server.MainPc.underWay]
    have hbound := (Server.traffic_numbered _ hq).bound m
    rcases (Server.held accepts _ h.kernel).listened m (.inl hunder) with hlog | hlog
    · have := Server.handed_arrived (Server.traffic_accounted _ hq) hlog
      exact hbound (List.mem_append_left _ this)
    · have := Server.handed_arrived (Server.traffic_accounted _ hq) hlog
      exact hbound (List.mem_append_right _ this)
  | _ => cases hd

theorem Linked.kernelStep (e : Server.Event) (content : Content) :
    Linked cfg accepts (kernelStep accepts s e content) := by
  obtain ⟨reply, iopub, shell, stdin, heq⟩ := @kernelStep_eq accepts s e content
  have ht := Server.threads accepts _ h.kernel
  have hmove := Server.step_move accepts ht e
  have hq := (Server.refines_traffic accepts).reachable _ h.kernel
  rw [heq]
  refine ⟨h.queue, .step (e := e) h.kernel rfl, h.sent, ?_, ?_, ?_⟩
  · intro m x hx
    obtain ⟨hm, hrequest⟩ := h.arrived m x hx
    exact ⟨@Server.Move.arrived _ _ hmove .shell m hm, hrequest⟩
  · intro d m hd
    have hle : s.kernel.arrivals ≤ (Server.step accepts s.kernel e).arrivals := hmove.arrivals_le
    rcases List.mem_append.mp hd with hd | hd
    · obtain ⟨hdid, hmid, haborts⟩ := h.aborted d m hd
      exact ⟨Nat.lt_of_lt_of_le hdid hle, Nat.lt_of_lt_of_le hmid hle, haborts⟩
    · obtain ⟨hdarrived, hmid, haborts, -⟩ := h.aborts hd
      have hdid := (Server.traffic_numbered _ hq).bound d (List.mem_append_left _ hdarrived)
      exact ⟨Nat.lt_of_lt_of_le hdid hle, Nat.lt_of_lt_of_le hmid hle, haborts⟩
  · intro d hd
    rcases hmove.log with ⟨done, hlog⟩ | ⟨m, route, hlog, -⟩
    · change (Server.step accepts s.kernel e).log = _ at hlog
      rw [hlog] at hd
      obtain ⟨m, hm⟩ := h.noted d (by simpa using hd)
      exact ⟨m, List.mem_append_left _ hm⟩
    · change (Server.step accepts s.kernel e).log = _ at hlog
      rw [hlog] at hd
      rcases List.mem_append.mp hd with hd | hd
      · obtain ⟨m, hm⟩ := h.noted d hd
        exact ⟨m, List.mem_append_left _ hm⟩
      · obtain ⟨rfl, rfl⟩ : d = m ∧ .abortCallback = route := by simpa using hd
        obtain ⟨⟨a, b, rfl⟩, m, hm⟩ := Server.step_abort hlog
        exact ⟨m, List.mem_append_right _ hm⟩

theorem Linked.publish (message : JupyterMessage) :
    Linked cfg accepts (publish s message) := by
  obtain ⟨iopub, shell, stdin, heq⟩ := publish_eq s message
  rw [heq]
  exact h.wires s.reply iopub shell stdin

theorem Linked.step (e : Event) : Linked cfg accepts (step cfg accepts s e) := by
  cases e with
  | client e =>
    cases e with
    | message => exact h
    | _ => exact h.callback _
  | receive channel => exact h.receive channel
  | arrive => exact h.arrive
  | kernel e content => exact h.kernelStep e content
  | publish message => exact h.publish message

end Linked

theorem linked : ∀ s, (system cfg accepts).Reachable s → Linked cfg accepts s := by
  apply Transition.System.invariant
  · rintro s rfl
    exact linked_init
  · rintro s e s' - h rfl
    exact h.step e

/-! ## Runs in which executions are timely -/

theorem through_iff {s : State} {f : Sent} :
    through s f = true ↔ ∃ m, (m, f) ∈ s.arrived ∧ Server.Through s.kernel m := by
  unfold through
  rw [List.any_eq_true]
  constructor
  · rintro ⟨⟨m, g⟩, hm, hg⟩
    obtain ⟨rfl, hthrough⟩ : g = f ∧ Server.Through s.kernel m := by simpa using hg
    exact ⟨m, hm, hthrough⟩
  · rintro ⟨m, hm, hthrough⟩
    exact ⟨(m, f), hm, by simpa using hthrough⟩

structure Timely (s : State) : Prop where
  /-- What had been settled before an execution was sent, the kernel is through with. -/
  late : ∀ d x, (d, x) ∈ s.arrived → ∀ f ∈ sends s.queue.log, f.request.aborts = true →
    f.item.ticket ∈ settled (before s.queue.log x) → through s f = true
  spared : ∀ d m x f, (d, m) ∈ s.aborted → (d, x) ∈ s.arrived → (m, f) ∈ s.arrived →
    f.item.ticket ∉ settled (before s.queue.log x)

section Timely

variable {s : State} (h : Timely s) (hl : Linked cfg accepts s)

include h hl

/-- A new execution of the queue's was not settled before one that has arrived was sent. -/
theorem Timely.callback (e : ExecutionQueue.Event) : Timely (callback cfg s e) := by
  have hqueue := (hl.callback e).queue
  have hledger := ExecutionQueue.ledger_reachable _ hqueue
  obtain ⟨new, hnew⟩ := @ExecutionQueue.step_log cfg s.queue e
  have hbefore : ∀ d x, (d, x) ∈ s.arrived →
      before (ExecutionQueue.step cfg s.queue e).log x = before s.queue.log x := fun d x hx => by
    rw [← hnew]
    exact before_append new (hl.mem_sends hx)
  refine ⟨fun d x hx f hf haborts hsettled => ?_, fun d m x f hd hx hf => ?_⟩
  · change f.item.ticket ∈ settled (before (ExecutionQueue.step cfg s.queue e).log x) at hsettled
    rw [hbefore d x hx] at hsettled
    refine h.late d x hx f ?_ haborts hsettled
    -- it was settled before, so it was sent before
    change f ∈ sends (ExecutionQueue.step cfg s.queue e).log at hf
    rw [mem_sends, ← hnew] at hf
    rw [mem_sends]
    refine (List.mem_append.mp hf).resolve_right fun hlater => ?_
    obtain ⟨a, ha, hticket⟩ := List.mem_filterMap.mp hsettled
    have horder := hledger.order
    change (ExecutionQueue.step cfg s.queue e).log.Pairwise _ at horder
    rw [← hnew] at horder
    have ha : a ∈ s.queue.log := (List.takeWhile_prefix _).subset ha
    exact (List.pairwise_append.mp horder).2.2 a ha _ hlater _ hticket f.item rfl rfl
  · show f.item.ticket ∉ settled (before (ExecutionQueue.step cfg s.queue e).log x)
    rw [hbefore d x hx]
    exact h.spared d m x f hd hx hf

omit hl in
theorem Timely.wires (reply : Content) (iopub shell stdin : List JupyterMessage) :
    Timely { s with reply, iopub, shell, stdin } :=
  ⟨h.late, h.spared⟩

theorem Timely.receive (channel : Channel) : Timely (receive cfg s channel) := by
  rcases receive_eq s channel with heq | ⟨iopub, shell, stdin, e, heq⟩ <;> rw [heq]
  · exact h
  · exact (h.wires s.reply iopub shell stdin).callback (hl.wires s.reply iopub shell stdin) e

/-- **A timely arrival.** -/
theorem Timely.arrive (htimely : timely s .arrive = true) : Timely (arrive accepts s) := by
  have hl' := hl.arrive
  unfold Conversation.arrive at hl' ⊢
  split
  · exact h
  · next x rest hrequests =>
    simp only [hrequests] at hl'
    have hnew : ∀ f, through s f = true → through (Conversation.arrive accepts s) f = true := fun f hf => by
      obtain ⟨m, hm, hthrough⟩ := through_iff.mp hf
      simp only [Conversation.arrive, hrequests]
      exact through_iff.mpr
        ⟨m, List.mem_append_left _ hm, hthrough.step hl.kernel (.arriveShell x.request)⟩
    simp only [Conversation.arrive, hrequests] at hnew
    refine ⟨fun d y hy f hf haborts hsettled => hnew f ?_, fun d m y f hd hy hf => ?_⟩
    · rcases List.mem_append.mp hy with hy | hy
      · exact h.late d y hy f hf haborts hsettled
      · -- the one that arrives now
        obtain ⟨rfl, rfl⟩ : d = ⟨s.kernel.arrivals, x.request⟩ ∧ y = x := by simpa using hy
        simp only [timely, hrequests, List.all_eq_true] at htimely
        have := htimely f hf
        simpa [haborts, hsettled] using this
    · -- what was aborted had arrived before
      obtain ⟨hdid, hmid, -⟩ := hl.aborted d m hd
      have hold : ∀ k g, k.id < s.kernel.arrivals →
          (k, g) ∈ s.arrived ++ [(⟨s.kernel.arrivals, x.request⟩, x)] → (k, g) ∈ s.arrived := by
        intro k g hk hg
        refine (List.mem_append.mp hg).resolve_right fun heq => ?_
        obtain ⟨rfl, -⟩ : k = ⟨s.kernel.arrivals, x.request⟩ ∧ g = x := by simpa using heq
        exact Nat.lt_irrefl _ hk
      exact h.spared d m y f hd (hold d y hdid hy) (hold m f hmid hf)

theorem Timely.kernelStep (e : Server.Event) (content : Content) :
    Timely (kernelStep accepts s e content) := by
  obtain ⟨reply, iopub, shell, stdin, heq⟩ := @kernelStep_eq accepts s e content
  rw [heq]
  refine ⟨fun d x hx f hf haborts hsettled => ?_, fun d m x f hd hx hf hsettled => ?_⟩
  · obtain ⟨m, hm, hthrough⟩ := through_iff.mp (h.late d x hx f hf haborts hsettled)
    exact through_iff.mpr ⟨m, hm, hthrough.step hl.kernel e⟩
  · rcases List.mem_append.mp hd with hd | hd
    · exact h.spared d m x f hd hx hf hsettled
    · -- the kernel aborts for an execution it is not through with
      obtain ⟨-, -, haborts, hcurrent⟩ := hl.aborts hd
      have hrequest := (hl.arrived m f hf).2
      rw [hrequest] at haborts
      obtain ⟨m', hm', hthrough⟩ :=
        through_iff.mp (h.late d x hx f (hl.mem_sends hf) haborts hsettled)
      rw [hl.arrived_once hm' hf] at hthrough
      exact hthrough.2 hcurrent

omit hl in
theorem Timely.publish (message : JupyterMessage) : Timely (publish s message) := by
  obtain ⟨iopub, shell, stdin, heq⟩ := publish_eq s message
  rw [heq]
  exact h.wires s.reply iopub shell stdin

theorem Timely.step {e : Event} (htimely : timely s e = true) : Timely (step cfg accepts s e) := by
  cases e with
  | client e =>
    cases e with
    | message => exact h
    | _ => exact h.callback hl _
  | receive channel => exact h.receive hl channel
  | arrive => exact h.arrive hl htimely
  | kernel e content => exact h.kernelStep hl e content
  | publish message => exact h.publish message

end Timely

/-- **Only what waited is aborted.** In every run in which an execution reaches the kernel only
when the kernel is through with those settled before it was sent, no execution is aborted for
one that had been settled when it was sent; and what the kernel does not abort, it runs. -/
theorem aborts_only_what_waited (cfg : ExecutionQueue.Config) (accepts : Server.MsgType → Bool)
    (haccepts : accepts .executeRequest = false) (es : List Event)
    (htimely : ∀ pre e, pre ++ [e] <+: es → timely (run cfg accepts pre) e = true) :
    Spared (run cfg accepts es) := by
  have hrun : ((system cfg accepts).when fun s e => timely s e = true).Reachable (run cfg accepts es) :=
    Transition.System.reachable_when_foldl htimely
  have hl := linked _ hrun.of_when
  have htimely : Timely (run cfg accepts es) := by
    revert hrun
    generalize run cfg accepts es = s
    revert s
    apply Transition.System.invariant
    · rintro s rfl
      exact ⟨by simp, by simp⟩
    · rintro s e s' hs h ⟨htimely, rfl⟩
      exact h.step (linked _ hs.of_when) htimely
  refine ⟨htimely.spared, fun d x route hx hroute => ?_⟩
  obtain ⟨harrived, hrequest⟩ := hl.arrived d x hx
  have htype : d.msgType = some .executeRequest := by
    rw [Server.Message.msgType, hrequest]
    rfl
  refine (Server.execute_route hl.kernel haccepts harrived htype hroute).imp_right fun habort => ?_
  subst habort
  exact ⟨rfl, hl.noted d hroute⟩

/-- An execution with `stopOnError` fails on Python, and its error is published. -/
def failing : List Event :=
  [.client (.execute "1/0" { stopOnError := some true }), .arrive,
    .kernel (.main false false) {}, .kernel (.main false true) {}, .kernel (.main false false) {},
    .publish { msgType := .error, parentMsgId := "" }]

/-- The kernel has replied when the next execution reaches it. -/
theorem aborts_only_what_waited_replied : Spared (run ExecutionQueue.counting Server.carpo
    (failing ++ [.kernel (.main true false) {}, .kernel (.main false false) {},
      .kernel (.main false false) {},
      .kernel (.main false false) {},
      .kernel (.main false false) {}, .kernel (.main false false) {}, .receive .iopub,
      .client (.execute "1" {}), .arrive, .kernel (.main false false) {},
      .kernel (.main false true) {}])) :=
  aborts_only_what_waited _ _ rfl _ (Transition.System.forall_of_allSteps (by decide))

/-! ## The client does not wait -/

/-- The client has the error, and sends the next execution, before the kernel has replied. -/
def overtaking : List Event :=
  failing ++ [.receive .iopub, .client (.execute "1" {}), .kernel (.main true false) {},
    .kernel (.main false false) {}, .kernel (.main false false) {}, .arrive,
    .kernel (.main false false) {}]

/-- **The next execution is aborted** for the one whose promise was settled when it was sent. -/
theorem sent_after_the_error_aborted :
    ¬ Spared (run ExecutionQueue.counting Server.carpo overtaking) := by
  intro h
  let f : Sent := ⟨⟨"1/0", { stopOnError := some true }, 0⟩, "i"⟩
  let x : Sent := ⟨⟨"1", {}, 1⟩, "ii"⟩
  have haborted : (⟨1, x.request⟩, ⟨0, f.request⟩) ∈
      (run ExecutionQueue.counting Server.carpo overtaking).aborted := by decide
  have hx : (⟨1, x.request⟩, x) ∈ (run ExecutionQueue.counting Server.carpo overtaking).arrived := by
    decide
  have hf : (⟨0, f.request⟩, f) ∈ (run ExecutionQueue.counting Server.carpo overtaking).arrived := by
    decide
  exact h.spared _ _ x f haborted hx hf (by decide)

end Jovian.Conversation
