import Jovian.Client.SingleFlight

/-!
# Jovian — a result that does not depend on the channels' order

iopub and shell are separate sockets: the `execute_reply` of an execution can be seen
anywhere among its iopub messages. This module shows that it makes no difference.

* **`Progress`** is one execution on its own: what it has collected, message by message,
  until it is finished. `merge_finishes` says that wherever the reply is put among the
  iopub messages, it finishes with `expectedResult`, which only reads the two channels.
* **`follows_run`** connects it to the queue: as long as its own timers and `clear()`
  leave it alone, an execution in the queue makes the progress its own messages give it,
  whatever else happens in between.
* **`result_independent_of_channel_order`** puts the two together.
-/

namespace Jovian.ExecutionQueue

variable {cfg : Config} {s s' : State}

/-! ## One execution on its own -/

def JupyterMessage.isIdle (message : JupyterMessage) : Bool :=
  message.msgType = .status && message.content.executionState = some "idle"

/-- The messages that go into a result's output. -/
def JupyterMessage.isOutput (message : JupyterMessage) : Bool :=
  message.msgType ∈ [.stream, .executeResult, .displayData, .updateDisplayData, .clearOutput, .error]

/-- What an execution has of its result so far. -/
structure Collected where
  output : List JupyterMessage := []
  idle : Bool := false
  reply : Option JupyterMessage := none
deriving DecidableEq, Repr

/-- What the entry of a pending execution has collected. -/
def PendingExecution.collected (p : PendingExecution) : Collected where
  output := p.output
  idle := p.idle
  reply := p.finishWhenIdle.map FinishNow.reply

inductive Progress where
  | waiting (c : Collected)
  | finished (result : ExecutionResult)
deriving DecidableEq, Repr

/-- An unfinished execution gets its next message. -/
def Collected.next (c : Collected) (message : JupyterMessage) : Progress :=
  match message.msgType with
  | .stream | .executeResult | .displayData | .updateDisplayData | .clearOutput =>
    .waiting { c with output := c.output ++ [message] }
  | .status =>
    if message.content.executionState = some "idle" then
      match c.reply with
      | some reply => .finished (replyResult c.output reply.content)
      | none => .waiting { c with idle := true }
    else .waiting c
  | .error => .finished (errorResult (c.output ++ [message]) message.content)
  | .executeReply =>
    if c.idle || message.content.status = some .aborted then
      .finished (replyResult c.output message.content)
    else .waiting { c with reply := some message }
  | .inputRequest | .other _ => .waiting c

def Progress.next : Progress → JupyterMessage → Progress
  | .waiting c, message => c.next message
  | .finished result, _ => .finished result

/-- The messages up to and including the first error. -/
def upToError : List JupyterMessage → List JupyterMessage
  | [] => []
  | message :: messages =>
    if message.msgType = .error then [message] else message :: upToError messages

/-- The output the iopub messages `iopub` make, in the order they were published. -/
def outputOf (iopub : List JupyterMessage) : List JupyterMessage :=
  (upToError iopub).filter JupyterMessage.isOutput

/-- The result the iopub messages `iopub` and the reply `reply` make. -/
def expectedResult (iopub : List JupyterMessage) (reply : JupyterMessage) : ExecutionResult :=
  match iopub.find? (·.msgType = .error) with
  | some error => errorResult (outputOf iopub) error.content
  | none => replyResult (outputOf iopub) reply.content

/-- `expectedResult` behind the output `out`. -/
def expectedFrom (out iopub : List JupyterMessage) (reply : JupyterMessage) : ExecutionResult :=
  match iopub.find? (·.msgType = .error) with
  | some error => errorResult (out ++ outputOf iopub) error.content
  | none => replyResult (out ++ outputOf iopub) reply.content

theorem expectedFrom_nil (iopub : List JupyterMessage) (reply : JupyterMessage) :
    expectedFrom [] iopub reply = expectedResult iopub reply := rfl

theorem expectedFrom_cons (out : List JupyterMessage) (message : JupyterMessage)
    (iopub : List JupyterMessage) (reply : JupyterMessage) :
    expectedFrom out (message :: iopub) reply =
      if message.msgType = .error then errorResult (out ++ [message]) message.content
      else expectedFrom (out ++ [message].filter JupyterMessage.isOutput) iopub reply := by
  unfold expectedFrom outputOf
  by_cases herror : message.msgType = .error
  · have hout : message.isOutput = true := by simp [JupyterMessage.isOutput, herror]
    simp [herror, upToError, hout]
  · by_cases hout : message.isOutput = true <;> simp [herror, upToError, hout]

/-- A message before the idle, other than the reply. -/
theorem next_body (c : Collected) {message : JupyterMessage} (hidle : message.isIdle = false)
    (hreply : message.msgType ≠ .executeReply) :
    c.next message =
      if message.msgType = .error then .finished (errorResult (c.output ++ [message]) message.content)
      else .waiting { c with output := c.output ++ [message].filter JupyterMessage.isOutput } := by
  unfold Collected.next
  cases htype : message.msgType with
  | status =>
    have hstate : message.content.executionState ≠ some "idle" := by
      simpa [JupyterMessage.isIdle, htype] using hidle
    simp [JupyterMessage.isOutput, htype, hstate]
  | executeReply => exact absurd htype hreply
  | _ => simp [JupyterMessage.isOutput, htype]

theorem next_idle (c : Collected) {message : JupyterMessage} (hidle : message.isIdle = true) :
    c.next message =
      match c.reply with
      | some reply => .finished (replyResult c.output reply.content)
      | none => .waiting { c with idle := true } := by
  obtain ⟨htype, hstate⟩ : message.msgType = .status ∧
      message.content.executionState = some "idle" := by
    simpa [JupyterMessage.isIdle] using hidle
  simp [Collected.next, htype, hstate]

theorem expectedFrom_idle (out : List JupyterMessage) {idle : JupyterMessage}
    (hidle : idle.isIdle = true) (reply : JupyterMessage) :
    expectedFrom out [idle] reply = replyResult out reply.content := by
  have htype : idle.msgType = .status := by
    simp [JupyterMessage.isIdle] at hidle
    exact hidle.1
  simp [expectedFrom, outputOf, upToError, JupyterMessage.isOutput, htype]

theorem foldl_finished (result : ExecutionResult) (messages : List JupyterMessage) :
    messages.foldl Progress.next (.finished result) = .finished result := by
  induction messages with
  | nil => rfl
  | cons _ _ ih => exact ih

/-- A message of iopub before the idle. -/
def Before (message : JupyterMessage) : Prop :=
  message.isIdle = false ∧ message.msgType ≠ .executeReply

instance (message : JupyterMessage) : Decidable (Before message) :=
  inferInstanceAs (Decidable (_ ∧ _))

/-- The reply is there: the rest of iopub finishes the execution. -/
theorem replied_finishes {body : List JupyterMessage} (hbody : ∀ message ∈ body, Before message)
    {idle : JupyterMessage} (hidle : idle.isIdle = true) (reply : JupyterMessage)
    (out : List JupyterMessage) :
    (body ++ [idle]).foldl Progress.next (.waiting { output := out, reply := some reply }) =
      .finished (expectedFrom out (body ++ [idle]) reply) := by
  induction body generalizing out with
  | nil =>
    rw [List.nil_append, expectedFrom_idle out hidle]
    exact next_idle _ hidle
  | cons message body ih =>
    obtain ⟨hmessage, hbody⟩ := List.forall_mem_cons.mp hbody
    rw [List.cons_append, List.foldl_cons, expectedFrom_cons, Progress.next,
      next_body _ hmessage.1 hmessage.2]
    split
    · exact foldl_finished _ _
    · exact ih hbody _

/-- **One execution, both channels.** Wherever the reply is put among the iopub messages,
the execution finishes with the result the two make. -/
theorem merge_finishes {body : List JupyterMessage} (hbody : ∀ message ∈ body, Before message)
    {idle : JupyterMessage} (hidle : idle.isIdle = true) {reply : JupyterMessage}
    (hreply : reply.msgType = .executeReply) (hstatus : reply.content.status ≠ some .aborted)
    {a b : List JupyterMessage} (hab : a ++ b = body ++ [idle]) (out : List JupyterMessage) :
    (a ++ reply :: b).foldl Progress.next (.waiting { output := out }) =
      .finished (expectedFrom out (body ++ [idle]) reply) := by
  have hnext : ∀ c : Collected, c.next reply =
      if c.idle then .finished (replyResult c.output reply.content)
      else .waiting { c with reply := some reply } := by
    intro c
    simp [Collected.next, hreply, hstatus]
  induction a generalizing out body with
  | nil =>
    rw [List.nil_append] at hab ⊢
    rw [List.foldl_cons, Progress.next, hnext, hab]
    exact replied_finishes hbody hidle reply out
  | cons message a ih =>
    cases body with
    | nil =>
      -- the reply comes after the idle
      obtain ⟨rfl, hnil⟩ := List.cons.inj hab
      obtain ⟨rfl, rfl⟩ := List.append_eq_nil_iff.mp hnil
      rw [List.nil_append, expectedFrom_idle out hidle, List.cons_append, List.foldl_cons,
        Progress.next, next_idle _ hidle]
      exact hnext _
    | cons message' body =>
      obtain ⟨rfl, htail⟩ := List.cons.inj hab
      obtain ⟨hmessage, hbody⟩ := List.forall_mem_cons.mp hbody
      rw [List.cons_append, List.cons_append, List.foldl_cons, expectedFrom_cons, Progress.next,
        next_body _ hmessage.1 hmessage.2]
      split
      · exact foldl_finished _ _
      · exact ih hbody htail _

/-! ## What a callback changes before its `processNext` -/

/-- The addon returns no id twice: it makes a new UUID for each request. -/
def FreshIds (cfg : Config) : Prop :=
  ∀ n n' x x' msgId, msgId ≠ "" → cfg.addon n x = .returned msgId →
    cfg.addon n' x' = .returned msgId → n = n'

/-- `s'` is what a callback has made of `s` up to its `processNext`: nothing was sent, and
only entries under ids `touched` were changed. -/
structure Prepared (touched : String → Prop) (s s' : State) : Prop where
  sends : s'.sends = s.sends
  log : s.log <+: s'.log
  sent : ∀ x msgId, .sent x msgId ∈ s'.log → .sent x msgId ∈ s.log
  timers : s'.timers ⊆ s.timers
  frame : ∀ k, ¬ touched k → s'.pending.get k = s.pending.get k

namespace Prepared

variable {touched : String → Prop}

theorem refl (s : State) : Prepared touched s s :=
  ⟨rfl, List.prefix_refl _, fun _ _ h => h, fun _ h => h, fun _ _ => rfl⟩

theorem trans {s s' s'' : State} (h : Prepared touched s s') (h' : Prepared touched s' s'') :
    Prepared touched s s'' where
  sends := h'.sends.trans h.sends
  log := h.log.trans h'.log
  sent x msgId hx := h.sent x msgId (h'.sent x msgId hx)
  timers := List.Subset.trans h'.timers h.timers
  frame k hk := (h'.frame k hk).trans (h.frame k hk)

theorem settleAll (s : State) (os : List (Nat × Outcome)) : Prepared touched s (s.settleAll os) :=
  { refl s with
    log := List.prefix_append _ _
    sent := fun x msgId hx => by
      rcases List.mem_append.mp hx with hx | hx
      · exact hx
      · obtain ⟨_, _, heq⟩ := List.mem_map.mp hx
        cases heq }

theorem ne_of_not_touched {k msgId : String} (hid : touched msgId) (hk : ¬ touched k) :
    k ≠ msgId := by
  rintro rfl
  exact hk hid

theorem setPending (s : State) {msgId : String} (hid : touched msgId) (p : PendingExecution) :
    Prepared touched s { s with pending := s.pending.set msgId p } :=
  { @refl touched s with
    frame := fun _ hk => InsertionMap.get_set_ne _ (ne_of_not_touched hid hk) _ }

theorem retire (s : State) {msgId : String} (hid : touched msgId) (ticket : Nat)
    (outcome : Outcome) : Prepared touched s (s.retire msgId ticket outcome) := by
  have hgone : Prepared touched s
      { s.clearTimer ticket with pending := s.pending.delete msgId } :=
    { @Prepared.refl touched s with
      timers := List.filter_subset_self _
      frame := fun _ hk => InsertionMap.get_delete_ne _ (ne_of_not_touched hid hk) }
  exact hgone.trans (settleAll _ [(ticket, outcome)])

theorem abortQueuedIf (s : State) (cond : Bool) : Prepared touched s (abortQueuedIf s cond) := by
  cases cond with
  | false => exact refl s
  | true => exact { settleAll { s with queue := [] } _ with }

end Prepared

/-- A callback up to its `processNext`, or one that has none. -/
def PreparedStep (cfg : Config) (touched : String → Prop) (s s' : State) : Prop :=
  ∃ s₁, Prepared touched s s₁ ∧ (s' = s₁ ∨ s' = processNext cfg s₁)

theorem finishNow_prepared {touched : String → Prop} (s : State) {msgId : String}
    (hid : touched msgId) (p : PendingExecution) (f : FinishNow) :
    PreparedStep cfg touched s (finishNow cfg s msgId p f) := by
  have h : Prepared touched s (s.clearIdleWait f.handle) := { Prepared.refl s with }
  exact ⟨_, (h.trans (.abortQueuedIf _ _)).trans (.retire _ hid _ _), .inr rfl⟩

/-- The `switch` of `handleMessage` only touches the entry of its own request. -/
theorem dispatchMessage_prepared {touched : String → Prop} (s : State) (message : JupyterMessage)
    (hid : touched message.parentMsgId) (p : PendingExecution) :
    PreparedStep cfg touched s (dispatchMessage cfg s message p) := by
  unfold dispatchMessage
  dsimp only
  split
  · split
    · next timer _ =>
      have h : Prepared touched s (s.clearTimer timer) :=
        { Prepared.refl s with timers := List.filter_subset_self _ }
      exact ⟨_, h.trans (.setPending _ hid _), .inl rfl⟩
    · exact ⟨s, .refl s, .inl rfl⟩
  iterate 5 exact ⟨_, .setPending s hid _, .inl rfl⟩
  · split
    · split
      · exact finishNow_prepared s hid _ _
      · exact ⟨_, .setPending s hid _, .inl rfl⟩
    · exact ⟨s, .refl s, .inl rfl⟩
  · exact ⟨_, (Prepared.abortQueuedIf s _).trans (.retire _ hid _ _), .inr rfl⟩
  · have h : Prepared touched s { s with nextHandle := s.nextHandle + 1 } :=
      { Prepared.refl s with }
    split
    · obtain ⟨s₁, h₁, heq⟩ := @finishNow_prepared cfg touched
        { s with nextHandle := s.nextHandle + 1 } _ hid p { handle := s.nextHandle, reply := message }
      exact ⟨s₁, h.trans h₁, heq⟩
    · refine ⟨_, ?_, .inl rfl⟩
      exact { h.trans (.setPending _ hid _) with }
  · exact ⟨s, .refl s, .inl rfl⟩

theorem clearPending_prepared (es : List (String × PendingExecution)) (s : State) :
    Prepared (fun _ => True) s
      (es.foldl (fun s e => s.retire e.1 e.2.ticket (.rejected CLEARED_MESSAGE)) s) := by
  induction es generalizing s with
  | nil => exact .refl s
  | cons e es ih => exact (Prepared.retire s trivial _ _).trans (ih _)

/-- The ids whose entries an event may touch. -/
def Touches (s : State) : Event → String → Prop
  | .message message, k => k = message.parentMsgId
  | .clear, _ => True
  | .timeout ticket, k => ∃ t ∈ s.timers, t.item.ticket = ticket ∧ t.msgId = k
  | .idleWaitExpired handle, k => ∃ w ∈ s.idleWaits, w.finishNow.handle = handle ∧
      ∃ p, s.pending.get k = some p ∧ p.ticket = w.ticket
  | .execute _ _, _ | .interruptCompleted _, _ => False

/-- **Every callback**, up to its `processNext`. -/
theorem step_prepared (s : State) (e : Event) :
    PreparedStep cfg (Touches s e) s (step cfg s e) := by
  cases e with
  | execute code options =>
    unfold step execute
    dsimp only
    split
    · refine ⟨_, ?_, .inl rfl⟩
      exact { Prepared.refl s with
        log := List.prefix_append _ _
        sent := fun x msgId hx => by simpa using hx }
    · have h : Prepared (Touches s (.execute code options)) s { s with
          queue := s.queue ++ [{ code, options, ticket := s.nextTicket }]
          nextTicket := s.nextTicket + 1
          log := s.log ++ [.accepted { code, options, ticket := s.nextTicket }] } :=
        { Prepared.refl s with
          log := List.prefix_append _ _
          sent := fun x msgId hx => by simpa using hx }
      split
      · exact ⟨_, h, .inl rfl⟩
      · exact ⟨_, h, .inr rfl⟩
  | clear =>
    have h : Prepared (fun _ => True) s { s with queue := [], executing := false } :=
      { Prepared.refl s with }
    exact ⟨_, (h.trans (.settleAll _ _)).trans (clearPending_prepared s.pending _), .inl rfl⟩
  | message message =>
    have hid : Touches s (.message message) message.parentMsgId := rfl
    unfold step handleMessage
    dsimp only
    split
    · exact ⟨s, .refl s, .inl rfl⟩
    · next p hp =>
      cases p.restartIdleWait with
      | none => exact dispatchMessage_prepared s message hid p
      | some f =>
        have h : Prepared (Touches s (.message message)) s (s.armIdleWait p.ticket f) :=
          { Prepared.refl s with }
        obtain ⟨s₁, h₁, heq⟩ :=
          @dispatchMessage_prepared cfg _ (s.armIdleWait p.ticket f) message hid p
        exact ⟨s₁, h.trans h₁, heq⟩
  | timeout ticket =>
    unfold step
    dsimp only
    split
    · next t ht =>
      have hid : Touches s (.timeout ticket) t.msgId :=
        ⟨t, List.mem_of_find?_eq_some ht, by simpa using List.find?_some ht, rfl⟩
      refine ⟨_, ?_, .inl rfl⟩
      exact { Prepared.retire s hid t.item.ticket _ with }
    · exact ⟨s, .refl s, .inl rfl⟩
  | interruptCompleted ticket =>
    unfold step
    dsimp only
    split
    · exact ⟨{ s with interrupted := s.interrupted.erase ticket }, { Prepared.refl s with }, .inr rfl⟩
    · exact ⟨s, .refl s, .inl rfl⟩
  | idleWaitExpired handle =>
    unfold step idleWaitExpired
    dsimp only
    split
    · next w hw =>
      have h : Prepared (Touches s (.idleWaitExpired handle)) s
          (s.clearIdleWait w.finishNow.handle) := { Prepared.refl s with }
      split
      · next p hp =>
        split
        · next hticket =>
          have hid : Touches s (.idleWaitExpired handle) w.finishNow.reply.parentMsgId :=
            ⟨w, List.mem_of_find?_eq_some hw, by simpa using List.find?_some hw, p, hp, hticket⟩
          obtain ⟨s₁, h₁, heq⟩ := @finishNow_prepared cfg _
            (s.clearIdleWait w.finishNow.handle) _ hid p w.finishNow
          exact ⟨s₁, h.trans h₁, heq⟩
        · exact ⟨_, h, .inl rfl⟩
      · exact ⟨_, h, .inl rfl⟩
    · exact ⟨s, .refl s, .inl rfl⟩

/-! ## What `processNext` adds -/

/-- `processNext` adds to the log, touches no entry but that of what it sends, and what it
sends is the answer of a new call of the addon. -/
theorem processNext_log (s : State) : s.log <+: (processNext cfg s).log := by
  unfold processNext
  have hprocessed := @processQueue_processed cfg s.queue s
  generalize processQueue cfg s.queue s = s' at hprocessed
  cases hprocessed with
  | drained failed sends hqueue _ => exact List.prefix_append _ _
  | sent failed n item rest msgId hqueue _ _ _ =>
    exact (List.prefix_append _ _).trans (List.prefix_append _ _)

/-- What `processNext` does of one send, or that it has none. -/
theorem processNext_sent (s : State) :
    let s' := processNext cfg s
    s.sends ≤ s'.sends ∧
    ((∀ x msgId, .sent x msgId ∈ s'.log → .sent x msgId ∈ s.log) ∧ s'.timers = s.timers ∧
        s'.pending = s.pending ∨
      ∃ n item msgId p, s.sends ≤ n ∧ n < s'.sends ∧ cfg.addon n item = .returned msgId ∧
        msgId ≠ "" ∧ .sent item msgId ∈ s'.log ∧
        (∀ x id, .sent x id ∈ s'.log → .sent x id ∈ s.log ∨ x = item ∧ id = msgId) ∧
        (∀ t ∈ s'.timers, t ∈ s.timers ∨ t.item = item ∧ t.msgId = msgId) ∧
        s'.pending = s.pending.set msgId p ∧ p.ticket = item.ticket ∧ p.collected = {}) := by
  dsimp only
  unfold processNext
  have hprocessed := @processQueue_processed cfg s.queue s
  generalize processQueue cfg s.queue s = s' at hprocessed
  cases hprocessed with
  | drained failed sends hqueue hsends =>
    refine ⟨hsends, .inl ⟨fun x msgId hx => ?_, rfl, rfl⟩⟩
    simpa [State.settleAll] using hx
  | sent failed n item rest msgId hqueue hsends hsend hid =>
    refine ⟨Nat.le_succ_of_le hsends, .inr ⟨n, item, msgId, _, hsends, Nat.lt_succ_self n, hsend, hid,
      by simp [startPending], fun x id hx => ?_, fun t ht => ?_, rfl, rfl, rfl⟩⟩
    · simpa [startPending, State.settleAll] using hx
    · unfold startPending at ht
      dsimp only at ht
      split at ht
      · rcases List.mem_append.mp ht with ht | ht
        · exact .inl ht
        · rw [List.mem_singleton.mp ht]
          exact .inr ⟨rfl, rfl⟩
      · exact .inl ht

/-! ## Ids name executions -/

/-- Every id in use was returned by one call of the addon, for one execution. -/
structure Named (cfg : Config) (s : State) : Prop where
  issued : ∀ x msgId, .sent x msgId ∈ s.log →
    msgId ≠ "" ∧ ∃ n < s.sends, cfg.addon n x = .returned msgId
  unique : ∀ x y msgId, .sent x msgId ∈ s.log → .sent y msgId ∈ s.log → x = y
  timers : ∀ t ∈ s.timers, .sent t.item t.msgId ∈ s.log

theorem Named.prepared {touched : String → Prop} (h : Named cfg s) (hp : Prepared touched s s') :
    Named cfg s' where
  issued x msgId hx := by
    rw [hp.sends]
    exact h.issued x msgId (hp.sent x msgId hx)
  unique x y msgId hx hy := h.unique x y msgId (hp.sent x msgId hx) (hp.sent y msgId hy)
  timers t ht := hp.log.subset (h.timers t (hp.timers ht))

/-- An id that is new was not returned before. -/
theorem Named.fresh (h : Named cfg s) (hids : FreshIds cfg) {n : Nat} (hn : s.sends ≤ n)
    {item : QueuedExecution} {msgId : String} (hsend : cfg.addon n item = .returned msgId)
    (x : QueuedExecution) : .sent x msgId ∉ s.log := by
  intro hx
  obtain ⟨hid, n', hn', hsend'⟩ := h.issued x msgId hx
  have := hids n n' item x msgId hid hsend hsend'
  omega

theorem Named.processNext (h : Named cfg s) (hids : FreshIds cfg) : Named cfg (processNext cfg s) := by
  have hlog := @processNext_log cfg s
  obtain ⟨hle, ⟨hsent, htimers, -⟩ | ⟨n, item, msgId, p, hn, hlt, hsend, hid, hmem, hsent, htimers, -⟩⟩ :=
    @processNext_sent cfg s
  · constructor
    · intro x id hx
      obtain ⟨hne, k, hk, hsend⟩ := h.issued x id (hsent x id hx)
      exact ⟨hne, k, Nat.lt_of_lt_of_le hk hle, hsend⟩
    · exact fun x y id hx hy => h.unique x y id (hsent x id hx) (hsent y id hy)
    · intro t ht
      rw [htimers] at ht
      exact hlog.subset (h.timers t ht)
  · constructor
    · intro x id hx
      rcases hsent x id hx with hx | ⟨rfl, rfl⟩
      · obtain ⟨hne, k, hk, hsend⟩ := h.issued x id hx
        exact ⟨hne, k, Nat.lt_of_lt_of_le hk hle, hsend⟩
      · exact ⟨hid, n, hlt, hsend⟩
    · intro x y id hx hy
      rcases hsent x id hx with hx | ⟨rfl, rfl⟩ <;> rcases hsent y id hy with hy | ⟨rfl, heq⟩
      · exact h.unique x y id hx hy
      · exact absurd (heq ▸ hx) (h.fresh hids hn hsend x)
      · exact absurd hy (h.fresh hids hn hsend y)
      · rfl
    · intro t ht
      rcases htimers t ht with ht | ⟨hitem, hmsgId⟩
      · exact hlog.subset (h.timers t ht)
      · rw [hitem, hmsgId]
        exact hmem

theorem named_step (hids : FreshIds cfg) (h : Named cfg s) (e : Event) :
    Named cfg (step cfg s e) := by
  obtain ⟨s₁, hp, heq | heq⟩ := @step_prepared cfg s e
  · rw [heq]
    exact h.prepared hp
  · rw [heq]
    exact (h.prepared hp).processNext hids

theorem named_run (hids : FreshIds cfg) (es : List Event) : Named cfg (run cfg es) := by
  refine Transition.System.invariant (M := system cfg) ?_ ?_ _ (reachable_run cfg es)
  · rintro s rfl
    constructor <;> simp
  · rintro s e _ - h rfl
    exact named_step hids h e

/-- The log only grows. -/
theorem step_log (s : State) (e : Event) : s.log <+: (step cfg s e).log := by
  obtain ⟨s₁, hp, heq | heq⟩ := @step_prepared cfg s e
  · exact heq ▸ hp.log
  · exact heq ▸ hp.log.trans (processNext_log s₁)

/-! ## The queue follows each execution's own progress -/

/-- The execution `ticket`, sent as `msgId`, has got as far as `g`. -/
def Follows (s : State) (msgId : String) (ticket : Nat) : Progress → Prop
  | .waiting c => ∃ p, s.pending.get msgId = some p ∧ p.ticket = ticket ∧ p.collected = c
  | .finished result => .settled ticket (.resolved result) ∈ s.log

/-- An event that is the execution's own timer, or a `clear()`. -/
def Disturbs (s : State) (ticket : Nat) : Event → Prop
  | .clear => True
  | .timeout ticket' => ticket' = ticket
  | .idleWaitExpired handle => ∃ w ∈ s.idleWaits, w.finishNow.handle = handle ∧ w.ticket = ticket
  | .execute _ _ | .message _ | .interruptCompleted _ => False

/-- The progress `g` after the event `e`, of the execution sent as `msgId`. -/
def Progress.after (g : Progress) (msgId : String) : Event → Progress
  | .message message => if message.parentMsgId = msgId then g.next message else g
  | _ => g

theorem finish_follows (s : State) (msgId : String) (p : PendingExecution) (result : ExecutionResult) :
    Follows (finish cfg s msgId p result) msgId p.ticket (.finished result) := by
  refine (processNext_log _).subset ?_
  simp [State.retire, State.settle]

theorem setPending_follows (s : State) (msgId : String) (p : PendingExecution) :
    Follows { s with pending := s.pending.set msgId p } msgId p.ticket (.waiting p.collected) :=
  ⟨p, InsertionMap.get_set_self _ _ _, rfl, rfl⟩

/-- **A message makes its execution's progress.** -/
theorem dispatchMessage_follows (message : JupyterMessage) {p : PendingExecution}
    (hp : s.pending.get message.parentMsgId = some p) :
    Follows (dispatchMessage cfg s message p) message.parentMsgId p.ticket
      (p.collected.next message) := by
  have hsame : Follows s message.parentMsgId p.ticket (.waiting p.collected) := ⟨p, hp, rfl, rfl⟩
  unfold dispatchMessage Collected.next
  cases htype : message.msgType with
  | inputRequest =>
    dsimp only
    split
    · next timer _ => exact setPending_follows (s.clearTimer timer) _ { p with timer := none }
    · exact hsame
  | status =>
    dsimp only
    split
    · cases hf : p.finishWhenIdle with
      | some f =>
        simp only [PendingExecution.collected, hf, Option.map_some]
        exact finish_follows _ _ { p with idle := true, finishWhenIdle := some f } _
      | none =>
        simp only [PendingExecution.collected, hf, Option.map_none]
        exact ⟨_, InsertionMap.get_set_self _ _ _, rfl, by simp [PendingExecution.collected]⟩
    · exact hsame
  | error => exact finish_follows _ _ { p with output := p.output ++ [message] } _
  | executeReply =>
    dsimp only
    have hidle : p.collected.idle = p.idle := rfl
    rw [hidle]
    split
    · exact finish_follows _ _ p _
    · exact ⟨_, InsertionMap.get_set_self _ _ _, rfl, rfl⟩
  | other name => exact hsame
  | _ => exact setPending_follows s _ { p with output := p.output ++ [message] }

theorem handleMessage_follows (message : JupyterMessage) {p : PendingExecution}
    (hp : s.pending.get message.parentMsgId = some p) :
    Follows (handleMessage cfg s message) message.parentMsgId p.ticket
      (p.collected.next message) := by
  unfold handleMessage
  rw [hp]
  dsimp only
  cases p.restartIdleWait with
  | none => exact dispatchMessage_follows message hp
  | some f => exact @dispatchMessage_follows cfg (s.armIdleWait p.ticket f) message p hp

/-- **Every callback keeps an execution's progress**, but for its own timers and `clear()`. -/
theorem Follows.step {x : QueuedExecution} {msgId : String} {g : Progress}
    (h : Follows s msgId x.ticket g) (hids : FreshIds cfg) (hnamed : Named cfg s)
    (hx : .sent x msgId ∈ s.log) {e : Event} (he : ¬ Disturbs s x.ticket e) :
    Follows (step cfg s e) msgId x.ticket (g.after msgId e) := by
  cases g with
  | finished result =>
    have hafter : (Progress.finished result).after msgId e = .finished result := by
      cases e with
      | message message => simp [Progress.after, Progress.next]
      | _ => rfl
    rw [hafter]
    exact (step_log s e).subset h
  | waiting c =>
    obtain ⟨p, hp, hticket, rfl⟩ := h
    by_cases htouch : Touches s e msgId
    · -- of the events that touch the entry, only its own messages are left
      cases e with
      | execute | interruptCompleted => exact htouch.elim
      | clear => exact absurd trivial he
      | message message =>
        obtain rfl : msgId = message.parentMsgId := htouch
        rw [Progress.after, if_pos rfl, ← hticket]
        exact handleMessage_follows message hp
      | timeout ticket =>
        obtain ⟨t, ht, rfl, rfl⟩ := htouch
        exact absurd (congrArg QueuedExecution.ticket (hnamed.unique _ _ _ (hnamed.timers t ht) hx)) he
      | idleWaitExpired handle =>
        obtain ⟨w, hw, hhandle, q, hq, hwq⟩ := htouch
        rw [Option.some.inj (hp.symm.trans hq)] at hticket
        exact absurd ⟨w, hw, hhandle, hwq.symm.trans hticket⟩ he
    · have hafter : (Progress.waiting p.collected).after msgId e = .waiting p.collected := by
        cases e with
        | message message => exact if_neg fun heq => htouch heq.symm
        | _ => rfl
      rw [hafter]
      obtain ⟨s₁, hprep, hstep⟩ := @step_prepared cfg s e
      have hp₁ : s₁.pending.get msgId = some p := (hprep.frame _ htouch).trans hp
      rcases hstep with hstep | hstep
      · exact ⟨p, by rw [hstep, hp₁], hticket, rfl⟩
      · refine ⟨p, ?_, hticket, rfl⟩
        obtain ⟨-, ⟨-, -, heq⟩ | ⟨n, item, id, q, hn, -, hsend, -, -, -, -, heq, -⟩⟩ :=
          @processNext_sent cfg s₁
        · rw [hstep, heq, hp₁]
        · have hne : msgId ≠ id := by
            rintro rfl
            exact (hnamed.prepared hprep).fresh hids hn hsend x (hprep.log.subset hx)
          rw [hstep, heq, InsertionMap.get_set_ne _ hne, hp₁]

/-! ## Runs -/

/-- The messages of the request `msgId` among the events `es`, in order. -/
def messagesOf (msgId : String) (es : List Event) : List JupyterMessage :=
  es.filterMap fun
    | .message message => if message.parentMsgId = msgId then some message else none
    | _ => none

/-- What the promise `ticket` was settled with, in order. -/
def State.settlementsOf (s : State) (ticket : Nat) : List Outcome :=
  s.log.filterMap fun
    | .settled ticket' outcome => if ticket' = ticket then some outcome else none
    | _ => none

theorem foldl_messagesOf_snoc (g : Progress) (msgId : String) (es : List Event) (e : Event) :
    (messagesOf msgId (es ++ [e])).foldl Progress.next g =
      ((messagesOf msgId es).foldl Progress.next g).after msgId e := by
  rw [messagesOf, List.filterMap_append, List.foldl_append]
  cases e with
  | message message =>
    by_cases hid : message.parentMsgId = msgId <;> simp [Progress.after, messagesOf, hid]
  | _ => rfl

/-- **An execution's run is its own messages' run**, whatever happens in between. -/
theorem follows_run (hids : FreshIds cfg) {pre es : List Event} {x : QueuedExecution}
    {msgId : String} {g : Progress} (hx : .sent x msgId ∈ (run cfg pre).log)
    (h : Follows (run cfg pre) msgId x.ticket g)
    (hes : ∀ es' e, es' ++ [e] <+: es → ¬ Disturbs (run cfg (pre ++ es')) x.ticket e) :
    .sent x msgId ∈ (run cfg (pre ++ es)).log ∧
      Follows (run cfg (pre ++ es)) msgId x.ticket ((messagesOf msgId es).foldl Progress.next g) := by
  induction es using List.reverseRecOn with
  | nil => simpa [messagesOf] using ⟨hx, h⟩
  | append_singleton es e ih =>
    obtain ⟨hx', h'⟩ := ih fun es' e' hpre => hes es' e' (hpre.trans (List.prefix_append _ _))
    rw [← List.append_assoc, run_snoc, foldl_messagesOf_snoc]
    exact ⟨(step_log _ e).subset hx',
      h'.step hids (named_run hids _) hx' (hes es e (List.prefix_refl _))⟩

/-- An execution that has just been sent has collected nothing. -/
theorem follows_sent {pre : List Event} {e : Event} {x : QueuedExecution}
    {msgId : String} (hnew : .sent x msgId ∉ (run cfg pre).log)
    (hsent : .sent x msgId ∈ (run cfg (pre ++ [e])).log) :
    Follows (run cfg (pre ++ [e])) msgId x.ticket (.waiting {}) := by
  rw [run_snoc] at hsent ⊢
  obtain ⟨s₁, hprep, heq | heq⟩ := @step_prepared cfg (run cfg pre) e
  · exact absurd (hprep.sent _ _ (heq ▸ hsent)) hnew
  · rw [heq] at hsent ⊢
    obtain ⟨-, ⟨hnone, -⟩ | ⟨n, item, id, p, -, -, -, -, -, hone, -, hpending, hticket, hcollected⟩⟩ :=
      @processNext_sent cfg s₁
    · exact absurd (hprep.sent _ _ (hnone _ _ hsent)) hnew
    · rcases hone _ _ hsent with hold | ⟨rfl, rfl⟩
      · exact absurd (hprep.sent _ _ hold) hnew
      · exact ⟨p, by rw [hpending, InsertionMap.get_set_self], hticket, hcollected⟩

/-- A promise that was settled, and none twice, was settled once. -/
theorem settlementsOf_eq {ticket : Nat} {outcome : Outcome} (hnodup : s.settled.Nodup)
    (hmem : .settled ticket outcome ∈ s.log) : s.settlementsOf ticket = [outcome] := by
  obtain ⟨before, after, hlog⟩ := List.append_of_mem hmem
  have hnone : ∀ log : List Action, ticket ∉ log.filterMap Action.settled? →
      (log.filterMap fun
        | .settled ticket' outcome => if ticket' = ticket then some outcome else none
        | _ => none) = [] := by
    intro log hticket
    rw [List.filterMap_eq_nil_iff]
    intro a ha
    cases a with
    | settled ticket' outcome' =>
      refine if_neg fun heq => hticket (List.mem_filterMap.mpr ⟨_, ha, ?_⟩)
      rw [← heq]
      rfl
    | _ => rfl
  rw [State.settled, hlog, List.filterMap_append, List.filterMap_cons] at hnodup
  obtain ⟨-, hafter, hbefore⟩ := List.nodup_append.mp hnodup
  rw [State.settlementsOf, hlog, List.filterMap_append, List.filterMap_cons,
    hnone before fun ht => hbefore _ ht _ List.mem_cons_self rfl, hnone after (List.nodup_cons.mp hafter).1]
  simp

/-! ## The headline -/

/-- `messages` is the iopub messages `iopub` with `reply` put among them. -/
def Merged (iopub : List JupyterMessage) (reply : JupyterMessage) (messages : List JupyterMessage) :
    Prop :=
  ∃ a b, a ++ b = iopub ∧ messages = a ++ reply :: b

/-- **The result does not depend on the channels' order.** After the event `e` has sent the
execution `x`, let the events `es` bring its iopub messages up to its idle, with its reply
anywhere among them, and anything else in between but its own timers and a `clear()`. Then
its promise is settled once, with the result the two channels make — and the output of
that result is `outputOf` the iopub messages. -/
theorem result_independent_of_channel_order (hids : FreshIds cfg) (pre : List Event) (e : Event)
    {x : QueuedExecution} {msgId : String} (hnew : .sent x msgId ∉ (run cfg pre).log)
    (hsent : .sent x msgId ∈ (run cfg (pre ++ [e])).log) {es : List Event}
    (hes : ∀ es' e', es' ++ [e'] <+: es → ¬ Disturbs (run cfg (pre ++ [e] ++ es')) x.ticket e')
    {body : List JupyterMessage} (hbody : ∀ message ∈ body, Before message)
    {idle : JupyterMessage} (hidle : idle.isIdle = true)
    {reply : JupyterMessage} (hreply : reply.msgType = .executeReply)
    (hstatus : reply.content.status ≠ some .aborted)
    (hmerged : Merged (body ++ [idle]) reply (messagesOf msgId es)) :
    (run cfg (pre ++ [e] ++ es)).settlementsOf x.ticket =
        [.resolved (expectedResult (body ++ [idle]) reply)] ∧
      (expectedResult (body ++ [idle]) reply).output = outputOf (body ++ [idle]) := by
  obtain ⟨a, b, hab, hmessages⟩ := hmerged
  obtain ⟨-, hfollows⟩ := follows_run hids hsent (follows_sent hnew hsent) hes
  rw [hmessages, merge_finishes hbody hidle hreply hstatus hab, expectedFrom_nil] at hfollows
  refine ⟨settlementsOf_eq (ledger_run cfg _).settled_nodup hfollows, ?_⟩
  unfold expectedResult
  split <;> rfl

theorem freshIds_counting : FreshIds counting := by
  intro n n' x x' msgId _ h h'
  have hlength := congrArg String.length (SendResult.returned.inj (h.trans h'.symm))
  simpa using hlength

/-- Output, then the reply, then the idle, with another request's message in between. -/
theorem result_independent_of_channel_order_print :
    let print : JupyterMessage := { msgType := .stream, parentMsgId := "i" }
    let reply : JupyterMessage :=
      { msgType := .executeReply, parentMsgId := "i", content := { status := some .ok } }
    let other : JupyterMessage := { msgType := .stream, parentMsgId := "j" }
    let idle : JupyterMessage :=
      { msgType := .status, parentMsgId := "i", content := { executionState := some "idle" } }
    (run counting ([] ++ [.execute "print(1)" {}] ++
        [.message print, .message reply, .message other, .message idle])).settlementsOf 0 =
      [.resolved { success := true, output := [print], status := some .ok }] := by
  intro print reply other idle
  have hes : ∀ es' e', es' ++ [e'] <+: [Event.message print, .message reply, .message other, .message idle] →
      ¬ Disturbs (run counting ([] ++ [.execute "print(1)" {}] ++ es')) 0 e' := by
    intro es' e' hpre
    have hmem := hpre.subset (List.mem_append_right es' (List.mem_singleton_self e'))
    simp only [List.mem_cons, List.not_mem_nil, or_false] at hmem
    rcases hmem with rfl | rfl | rfl | rfl <;> exact id
  have hnew : .sent { code := "print(1)", options := {}, ticket := 0 } "i" ∉ (run counting []).log := by
    decide
  have hsent : .sent { code := "print(1)", options := {}, ticket := 0 } "i" ∈
      (run counting ([] ++ [.execute "print(1)" {}])).log := by decide
  have hbody : ∀ message ∈ [print], Before message := by decide
  have hmerged : Merged ([print] ++ [idle]) reply
      (messagesOf "i" [.message print, .message reply, .message other, .message idle]) :=
    ⟨[print], [idle], rfl, by decide⟩
  exact (result_independent_of_channel_order freshIds_counting [] (.execute "print(1)" {}) hnew hsent
    hes hbody rfl rfl (by decide) hmerged).1

end Jovian.ExecutionQueue
