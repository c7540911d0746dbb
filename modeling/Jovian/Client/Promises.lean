import Jovian.Client.ChannelOrder

/-!
# Jovian — the queue loses no promise

An execution that was accepted is settled, or in the queue, or pending under the id it was sent
under: as ids name executions (`Named`), no entry of `pending` is written over.

* **`Filed.step`** — every callback keeps that.
* **`clear_settles`** — after `clear()` every promise is settled; it rejects those it settles.
-/

namespace Jovian.ExecutionQueue

variable {cfg : Config} {s s' : State}

structure Filed (s : State) : Prop where
  sent : ∀ x msgId, .sent x msgId ∈ s.log →
    x.ticket ∈ s.settled ∨ ∃ p, s.pending.get msgId = some p ∧ p.ticket = x.ticket
  waits : ∀ x ∈ s.accepted, x.ticket ∈ s.settled ∨ x ∈ s.queue ∨ ∃ msgId, .sent x msgId ∈ s.log

theorem filed_init : Filed {} where
  sent _ _ h := absurd h List.not_mem_nil
  waits _ h := absurd h List.not_mem_nil

namespace Filed

theorem quiet (h : Filed s) (hkeys : s.pending.Unique) (hq : Quiet s s') : Filed s' where
  sent x msgId hx := by
    rw [hq.log] at hx
    rw [hq.settled]
    refine (h.sent x msgId hx).imp_right fun ⟨p, hp, hticket⟩ => ?_
    obtain ⟨⟨id, p'⟩, he, hid, hsame⟩ := hq.owners' _ (InsertionMap.mem_of_get hp)
    obtain rfl : msgId = id := hid
    exact ⟨p', InsertionMap.get_of_mem (hq.keys hkeys) he, hsame.symm.trans hticket⟩
  waits x hx := by
    rw [hq.accepted] at hx
    rw [hq.settled, hq.queue, hq.log]
    exact h.waits x hx

/-- Promises are settled, and the queue keeps the others. -/
theorem settleAll (h : Filed s) (os : List (Nat × Outcome)) {queue : List QueuedExecution}
    (hqueue : ∀ x ∈ s.queue, x.ticket ∈ os.map Prod.fst ∨ x ∈ queue) :
    Filed (State.settleAll { s with queue } os) where
  sent x msgId hx := by
    have hold : .sent x msgId ∈ s.log := by
      rcases List.mem_append.mp hx with hx | hx
      · exact hx
      · obtain ⟨_, _, heq⟩ := List.mem_map.mp hx
        cases heq
    rw [settled_settleAll]
    exact (h.sent x msgId hold).imp_left fun h => List.mem_append_left _ h
  waits x hx := by
    rw [accepted_settleAll] at hx
    rw [settled_settleAll]
    rcases h.waits x hx with hsettled | hx | ⟨msgId, hx⟩
    · exact .inl (List.mem_append_left _ hsettled)
    · rcases hqueue x hx with hsettled | hx
      · exact .inl (List.mem_append_right _ hsettled)
      · exact .inr (.inl hx)
    · exact .inr (.inr ⟨msgId, List.mem_append_left _ hx⟩)

/-- The flags are not spoken of. -/
theorem with_flags (h : Filed s) (executing : Bool) (interrupted : List Nat) (sends : Nat) :
    Filed { s with executing, interrupted, sends } :=
  ⟨h.sent, h.waits⟩

/-- The execution under an id is retired, with its own ticket. -/
theorem retire (h : Filed s) {msgId : String} {ticket : Nat} (outcome : Outcome)
    (hown : ∀ x, .sent x msgId ∈ s.log → x.ticket ∈ s.settled ∨ x.ticket = ticket) :
    Filed (s.retire msgId ticket outcome) where
  sent x id hx := by
    have hold : .sent x id ∈ s.log := by
      rcases List.mem_append.mp hx with hx | hx
      · exact hx
      · cases List.mem_singleton.mp hx
    rw [settled_retire]
    by_cases hid : id = msgId
    · subst hid
      rcases hown x hold with hsettled | rfl
      · exact .inl (List.mem_append_left _ hsettled)
      · exact .inl (List.mem_append_right _ List.mem_cons_self)
    · refine (h.sent x id hold).imp (fun h => List.mem_append_left _ h) fun ⟨p, hp, hticket⟩ => ?_
      exact ⟨p, (InsertionMap.get_delete_ne _ hid).trans hp, hticket⟩
  waits x hx := by
    rw [accepted_retire] at hx
    rw [settled_retire]
    rcases h.waits x hx with hsettled | hx | ⟨id, hx⟩
    · exact .inl (List.mem_append_left _ hsettled)
    · exact .inr (.inl hx)
    · exact .inr (.inr ⟨id, List.mem_append_left _ hx⟩)

/-- The id's entry names the execution. -/
theorem retire_pending (h : Filed s) (hkeys : s.pending.Unique) {msgId : String}
    {p : PendingExecution} (hmem : (msgId, p) ∈ s.pending) (outcome : Outcome) :
    Filed (s.retire msgId p.ticket outcome) := by
  refine h.retire outcome fun x hx => (h.sent x msgId hx).imp_right fun ⟨p', hp', hticket⟩ => ?_
  have hp := InsertionMap.get_of_mem hkeys hmem
  rw [← hticket, Option.some.inj (hp'.symm.trans hp)]

theorem processNext (h : Filed s) (hledger : Ledger s) (hnamed : Named cfg (processNext cfg s)) :
    Filed (processNext cfg s) := by
  unfold ExecutionQueue.processNext at hnamed ⊢
  have hprocessed := @processQueue_processed cfg s.queue s
  generalize processQueue cfg s.queue s = s' at hprocessed hnamed
  cases hprocessed with
  | drained failed sends hqueue _ =>
    refine (h.with_flags false s.interrupted sends).settleAll _ fun x hx => .inl ?_
    rw [settlements_fst, ← hqueue]
    exact List.mem_map_of_mem hx
  | sent failed n item rest msgId hqueue _ _ _ =>
    have hdropped : Filed (State.settleAll { s with queue := item :: rest } (settlements failed)) := by
      refine h.settleAll _ fun x hx => ?_
      rw [hqueue] at hx
      rcases List.mem_append.mp hx with hx | hx
      · left
        rw [settlements_fst]
        exact List.mem_map_of_mem hx
      · exact .inr hx
    -- an execution sent under the same id before would be this one, and this one was queued
    have hfresh : ∀ x, .sent x msgId ∉ (State.settleAll s (settlements failed)).log := by
      intro x hx
      obtain rfl : x = item :=
        hnamed.unique x item msgId (List.mem_append_left _ hx) (List.mem_append_right _ List.mem_cons_self)
      have hqueued : x ∈ s.queue := hqueue ▸ List.mem_append_right _ List.mem_cons_self
      have hsent : x ∈ (State.settleAll s (settlements failed)).sent :=
        List.mem_filterMap.mpr ⟨_, hx, rfl⟩
      rw [sent_settleAll] at hsent
      exact hledger.queue_ne_sent hqueued hsent rfl
    constructor
    · intro x id hx
      rcases List.mem_append.mp hx with hold | hnew
      · have hne : id ≠ msgId := by
          rintro rfl
          exact hfresh x hold
        rw [settled_startPending]
        refine (hdropped.sent x id hold).imp_right fun ⟨p, hp, hticket⟩ => ?_
        exact ⟨p, (InsertionMap.get_set_ne _ hne _).trans hp, hticket⟩
      · obtain ⟨rfl, rfl⟩ := Action.sent.inj (List.mem_singleton.mp hnew)
        exact .inr ⟨_, InsertionMap.get_set_self _ _ _, rfl⟩
    · intro x hx
      rw [accepted_startPending] at hx
      rw [settled_startPending]
      rcases hdropped.waits x hx with hsettled | hx | ⟨id, hx⟩
      · exact .inl hsettled
      · rcases List.mem_cons.mp hx with rfl | hx
        · exact .inr (.inr ⟨msgId, List.mem_append_right _ List.mem_cons_self⟩)
        · exact .inr (.inl hx)
      · exact .inr (.inr ⟨id, List.mem_append_left _ hx⟩)

theorem abortQueuedIf (h : Filed s) (abort : Bool) : Filed (abortQueuedIf s abort) := by
  cases abort with
  | false => exact h
  | true =>
    refine h.settleAll _ fun x hx => .inl ?_
    simpa using ⟨x, hx, rfl⟩

theorem finishes (h : Filed s) (hledger : Ledger s) (hf : Finishes cfg s s') (hnamed : Named cfg s') :
    Filed s' := by
  cases hf with
  | intro s₁ msgId p p' abort result hquiet hmem hticket =>
    unfold finish at hnamed ⊢
    rw [hticket] at hnamed ⊢
    have hledger₁ := (hledger.quiet hquiet).abortQueuedIf abort
    have hmem₁ := (Ledger.pending_abortQueuedIf s₁ abort).symm ▸ hmem
    have h₁ := ((h.quiet hledger.keys hquiet).abortQueuedIf abort).retire_pending hledger₁.keys hmem₁
    exact (h₁ _).processNext (hledger₁.retire_pending hmem₁ _) hnamed

/-- The loop of `clear` over the pending executions. -/
theorem clearPending (h : Filed s) (hledger : Ledger s) (es : List (String × PendingExecution))
    (hsub : es ⊆ s.pending) (hnodup : (es.map Prod.fst).Nodup) :
    Filed (es.foldl (fun s e => s.retire e.1 e.2.ticket (.rejected CLEARED_MESSAGE)) s) := by
  induction es generalizing s with
  | nil => exact h
  | cons e es ih =>
    rw [List.map_cons, List.nodup_cons] at hnodup
    have hmem := hsub List.mem_cons_self
    refine ih (h.retire_pending hledger.keys hmem _) (hledger.retire_pending hmem _)
      (fun e' he' => ?_) hnodup.2
    refine InsertionMap.mem_delete.mpr ⟨hsub (List.mem_cons_of_mem _ he'), fun hid => ?_⟩
    exact hnodup.1 (hid ▸ List.mem_map_of_mem he')

theorem clear (h : Filed s) (hledger : Ledger s) : Filed (clear s) := by
  have hqueue : ∀ x ∈ s.queue,
      x.ticket ∈ (s.queue.map fun item => (item.ticket, Outcome.rejected CLEARED_MESSAGE)).map Prod.fst ∨
        x ∈ ([] : List QueuedExecution) := by
    intro x hx
    left
    simpa using ⟨x, hx, rfl⟩
  have hdrop := hledger.drop (List.append_nil s.queue).symm
    (s.queue.map fun item => (item.ticket, Outcome.rejected CLEARED_MESSAGE)) (by simp)
  exact ((h.settleAll _ hqueue).with_flags false s.interrupted s.sends).clearPending
    (hdrop.with_flags false s.interrupted s.sends) s.pending (fun _ he => he) hledger.keys

/-- A call that sends nothing and settles nothing. -/
theorem note (h : Filed s) {a : Action} {queue : List QueuedExecution} {nextTicket : Nat}
    (hsent : a.sent? = none) (hsettled : a.settled? = none) (hqueue : s.queue ⊆ queue)
    (haccepted : ∀ x, a.accepted? = some x → x ∈ queue) :
    Filed { s with queue, nextTicket, log := s.log ++ [a] } := by
  have hkept : State.settled { s with queue, nextTicket, log := s.log ++ [a] } = s.settled := by
    simp [State.settled, hsettled]
  constructor
  · intro x msgId hx
    rw [hkept]
    rcases List.mem_append.mp hx with hx | hx
    · exact h.sent x msgId hx
    · rw [← List.mem_singleton.mp hx] at hsent
      cases hsent
  · intro x hx
    rw [hkept]
    rcases List.mem_filterMap.mp hx with ⟨b, hb, hbx⟩
    rcases List.mem_append.mp hb with hb | hb
    · refine (h.waits x (List.mem_filterMap.mpr ⟨b, hb, hbx⟩)).imp_right (Or.imp (fun hx => hqueue hx) ?_)
      rintro ⟨msgId, hx⟩
      exact ⟨msgId, List.mem_append_left _ hx⟩
    · rw [List.mem_singleton.mp hb] at hbx
      exact .inr (.inl (haccepted x hbx))

theorem execute (h : Filed s) (hledger : Ledger s) (code : String) (options : ExecutionOptions)
    (hnamed : Named cfg (execute cfg s code options)) : Filed (execute cfg s code options) := by
  unfold ExecutionQueue.execute at hnamed ⊢
  by_cases hfull : s.queue.length ≥ cfg.maxSize
  · rw [if_pos hfull]
    exact h.note rfl rfl (fun _ hx => hx) fun x hx => nomatch hx
  · rw [if_neg hfull] at hnamed ⊢
    dsimp only at hnamed ⊢
    have haccept : Filed { s with
        queue := s.queue ++ [{ code, options, ticket := s.nextTicket }]
        nextTicket := s.nextTicket + 1
        log := s.log ++ [.accepted { code, options, ticket := s.nextTicket }] } :=
      h.note rfl rfl (List.subset_append_left _ _) fun x hx =>
        List.mem_append_right _ (List.mem_singleton.mpr (Option.some.inj hx).symm)
    by_cases hexec : s.executing = true
    · rw [if_pos hexec]
      exact haccept
    · rw [if_neg hexec] at hnamed ⊢
      exact haccept.processNext (hledger.accept code options) hnamed

theorem timeout (h : Filed s) (hnamed : Named cfg s) {t : Timer} (ht : t ∈ s.timers) :
    Filed (timeout cfg s t) := by
  refine (h.retire _ fun x hx => .inr ?_).with_flags s.executing (s.interrupted ++ [t.item.ticket]) s.sends
  rw [hnamed.unique x t.item t.msgId hx (hnamed.timers t ht)]

/-- **Every callback** loses no execution. -/
theorem step (h : Filed s) (hledger : Ledger s) (hids : FreshIds cfg) (hnamed : Named cfg s) (e : Event) :
    Filed (step cfg s e) := by
  have hnamed' := named_step hids hnamed e
  have hcallback := @step_callback cfg s hledger.keys e
  generalize ExecutionQueue.step cfg s e = s' at hcallback hnamed'
  cases hcallback with
  | execute code options => exact h.execute hledger code options hnamed'
  | clear => exact h.clear hledger
  | quiet hquiet => exact h.quiet hledger.keys hquiet
  | finishes hfinishes => exact h.finishes hledger hfinishes hnamed'
  | timeout ticket t ht => exact h.timeout hnamed ht
  | interruptCompleted ticket =>
    exact (h.with_flags s.executing (s.interrupted.erase ticket) s.sends).processNext
      (hledger.with_flags s.executing (s.interrupted.erase ticket) s.sends) hnamed'

end Filed

/-! ## Resolved by its own messages -/

/-- A message, or the end of a reply's wait, of the pending execution `ticket`. -/
def Answers (s : State) : Event → Nat → Prop
  | .message message, ticket => ∃ p, s.pending.get message.parentMsgId = some p ∧ p.ticket = ticket
  | .idleWaitExpired handle, ticket => ∃ w ∈ s.idleWaits, w.finishNow.handle = handle ∧
      ∃ p, s.pending.get w.finishNow.reply.parentMsgId = some p ∧ p.ticket = ticket
  | _, _ => False

/-- Between `s` and `s'`, the promises resolved are those `own` says. -/
def Resolves (own : Nat → ExecutionResult → Prop) (s s' : State) : Prop :=
  ∀ ticket result, .settled ticket (.resolved result) ∈ s'.log →
    .settled ticket (.resolved result) ∈ s.log ∨ own ticket result

namespace Resolves

variable {own : Nat → ExecutionResult → Prop}

theorem of_log (hlog : s'.log = s.log) : Resolves own s s' := by
  intro ticket result h
  rw [hlog] at h
  exact .inl h

theorem trans {s s' s'' : State} (h : Resolves own s s') (h' : Resolves own s' s'') :
    Resolves own s s'' := by
  intro ticket result hresolved
  rcases h' ticket result hresolved with hold | hnew
  · exact h ticket result hold
  · exact .inr hnew

theorem note {a : Action} (hlog : s'.log = s.log ++ [a]) (ha : a.settled? = none) :
    Resolves own s s' := by
  intro ticket result h
  rw [hlog] at h
  rcases List.mem_append.mp h with h | h
  · exact .inl h
  · rw [← List.mem_singleton.mp h] at ha
    cases ha

theorem settleAll (s : State) (os : List (Nat × Outcome))
    (hos : ∀ ticket result, (ticket, .resolved result) ∈ os → own ticket result) :
    Resolves own s (s.settleAll os) := by
  intro ticket result h
  rcases List.mem_append.mp h with h | h
  · exact .inl h
  · obtain ⟨⟨t, outcome⟩, ho, heq⟩ := List.mem_map.mp h
    cases heq
    exact .inr (hos _ _ ho)

theorem retire (s : State) (msgId : String) {ticket : Nat} {outcome : Outcome}
    (hown : ∀ result, outcome = .resolved result → own ticket result) :
    Resolves own s (s.retire msgId ticket outcome) := by
  refine settleAll { s.clearTimer ticket with pending := s.pending.delete msgId } [(ticket, outcome)]
    fun t result h => ?_
  obtain ⟨rfl, rfl⟩ := Prod.mk.inj (List.mem_singleton.mp h)
  exact hown result rfl

theorem abortQueuedIf (haborted : ∀ ticket, own ticket abortedResult) (s : State) (abort : Bool) :
    Resolves own s (abortQueuedIf s abort) := by
  cases abort with
  | false => exact of_log rfl
  | true =>
    refine settleAll { s with queue := [] } _ fun t result h => ?_
    obtain ⟨item, -, heq⟩ := List.mem_map.mp h
    rw [← Outcome.resolved.inj (Prod.mk.inj heq).2]
    exact haborted t

theorem processQueue (queue : List QueuedExecution) (s : State) :
    Resolves own s (processQueue cfg queue s) := by
  -- an execution that is not sent is rejected
  have hrejected : ∀ (s : State) (ticket : Nat) (error : String),
      Resolves own s (s.settle ticket (.rejected error)) := by
    refine fun s ticket error => settleAll s [(ticket, .rejected error)] fun t result h => ?_
    cases (Prod.mk.inj (List.mem_singleton.mp h)).2
  induction queue generalizing s with
  | nil => exact of_log rfl
  | cons item rest ih =>
    unfold ExecutionQueue.processQueue
    dsimp only
    split
    · next error _ =>
      exact (hrejected { s with queue := rest, executing := true, sends := s.sends + 1 } _ error).trans (ih _)
    · next msgId _ =>
      split
      · exact (hrejected { s with queue := rest, executing := true, sends := s.sends + 1 } _ _).trans (ih _)
      · exact note (a := .sent item msgId) rfl rfl

theorem finish {p : PendingExecution} {result : ExecutionResult} (hown : own p.ticket result) (s : State)
    (msgId : String) : Resolves own s (finish cfg s msgId p result) := by
  refine (retire s msgId fun result' h => ?_).trans (processQueue _ _)
  rw [← Outcome.resolved.inj h]
  exact hown

theorem finishNow (haborted : ∀ ticket, own ticket abortedResult) {p : PendingExecution}
    (hown : ∀ result, own p.ticket result) (s : State) (msgId : String) (f : FinishNow) :
    Resolves own s (finishNow cfg s msgId p f) :=
  (abortQueuedIf haborted (s.clearIdleWait f.handle) _).trans (finish (hown _) _ _)

theorem dispatchMessage (haborted : ∀ ticket, own ticket abortedResult) {p : PendingExecution}
    (hown : ∀ result, own p.ticket result) (s : State) (message : JupyterMessage) :
    Resolves own s (dispatchMessage cfg s message p) := by
  unfold ExecutionQueue.dispatchMessage
  dsimp only
  split
  · split <;> exact of_log rfl
  iterate 5 exact of_log rfl
  · split
    · split
      · exact finishNow haborted (by exact hown) s _ _
      · exact of_log rfl
    · exact of_log rfl
  · exact (abortQueuedIf haborted s _).trans (finish (by exact hown _) _ _)
  · split
    · exact finishNow haborted hown { s with nextHandle := s.nextHandle + 1 } _ _
    · exact of_log rfl
  · exact of_log rfl

theorem clearPending (es : List (String × PendingExecution)) (s : State) :
    Resolves own s (es.foldl (fun s e => s.retire e.1 e.2.ticket (.rejected CLEARED_MESSAGE)) s) := by
  induction es generalizing s with
  | nil => exact of_log rfl
  | cons e es ih => exact (retire s e.1 fun _ h => nomatch h).trans (ih _)

/-- `execute` resolves none. -/
theorem execute (s : State) (code : String) (options : ExecutionOptions) :
    Resolves own s (execute cfg s code options) := by
  unfold ExecutionQueue.execute
  dsimp only
  split
  · exact note rfl rfl
  · have haccepted : Resolves own s { s with
        queue := s.queue ++ [{ code, options, ticket := s.nextTicket }]
        nextTicket := s.nextTicket + 1
        log := s.log ++ [.accepted { code, options, ticket := s.nextTicket }] } :=
      note rfl rfl
    split
    · exact haccepted
    · exact haccepted.trans (processQueue _ _)

/-- `clear` resolves none. -/
theorem clear (s : State) : Resolves own s (clear s) := by
  refine (settleAll { s with queue := [], executing := false } _ fun t result h => ?_).trans
    (clearPending s.pending _)
  obtain ⟨item, -, heq⟩ := List.mem_map.mp h
  cases (Prod.mk.inj heq).2

end Resolves

/-- **Every callback** resolves no promise but the one its message, or its wait, is of, and those it
aborts. -/
theorem resolves_step (s : State) (e : Event) :
    Resolves (fun ticket result => result = abortedResult ∨ Answers s e ticket) s (step cfg s e) := by
  have haborted : ∀ ticket, abortedResult = abortedResult ∨ Answers s e ticket := fun _ => .inl rfl
  cases e with
  | execute code options => exact .execute s code options
  | clear => exact .clear s
  | message message =>
    unfold step handleMessage
    dsimp only
    split
    · exact .of_log rfl
    · next p hp =>
      have hown : Answers s (.message message) p.ticket := ⟨p, hp, rfl⟩
      split
      · next f _ => exact .dispatchMessage haborted (fun _ => .inr hown) (s.armIdleWait p.ticket f) message
      · exact .dispatchMessage haborted (fun _ => .inr hown) s message
  | timeout ticket =>
    unfold step
    dsimp only
    split
    · next t _ => exact .retire s t.msgId fun _ h => nomatch h
    · exact .of_log rfl
  | interruptCompleted ticket =>
    unfold step
    dsimp only
    split
    · exact .processQueue _ { s with interrupted := s.interrupted.erase ticket }
    · exact .of_log rfl
  | idleWaitExpired handle =>
    unfold step idleWaitExpired
    dsimp only
    split
    · next w hw =>
      split
      · next p hp =>
        split
        · have hown : Answers s (.idleWaitExpired handle) p.ticket :=
            ⟨w, List.mem_of_find?_eq_some hw, by simpa using List.find?_some hw, p, hp, rfl⟩
          exact .finishNow haborted (fun _ => .inr hown) (s.clearIdleWait w.finishNow.handle) _ w.finishNow
        · exact .of_log rfl
      · exact .of_log rfl
    · exact .of_log rfl

/-! ## What the queue keeps -/

/-- What every callback keeps, of a queue whose addon returns no id twice. -/
structure Kept (cfg : Config) (s : State) : Prop where
  ledger : Ledger s
  occupied : Occupied s
  named : Named cfg s
  filed : Filed s

theorem kept_init : Kept cfg {} where
  ledger := ledger_init
  occupied := occupied_init
  named := by constructor <;> simp
  filed := filed_init

namespace Kept

theorem step (h : Kept cfg s) (hids : FreshIds cfg) (e : Event) : Kept cfg (step cfg s e) where
  ledger := h.ledger.step e
  occupied := h.occupied.step h.ledger e
  named := named_step hids h.named e
  filed := h.filed.step h.ledger hids h.named e

/-- **No promise is lost.** An execution whose promise is not settled waits behind one in flight or
an unanswered interrupt, or it is pending. -/
theorem placed (h : Kept cfg s) {ticket : Nat} (hlt : ticket < s.nextTicket)
    (hunsettled : ticket ∉ s.settled) :
    ((∃ x ∈ s.queue, x.ticket = ticket) ∧ (s.inFlight ≠ [] ∨ s.interrupted ≠ [])) ∨
      ∃ e ∈ s.pending, e.2.ticket = ticket := by
  rw [← List.mem_range, ← h.ledger.tickets] at hlt
  obtain ⟨x, hx, rfl⟩ := List.mem_map.mp hlt
  rcases h.filed.waits x hx with hsettled | hqueued | ⟨msgId, hsent⟩
  · exact absurd hsettled hunsettled
  · have hexec := h.occupied.executing_of_queue (List.ne_nil_of_mem hqueued)
    exact .inl ⟨⟨x, hqueued, rfl⟩, h.occupied.occupied hexec⟩
  · rcases h.filed.sent x msgId hsent with hsettled | ⟨p, hp, hticket⟩
    · exact absurd hsettled hunsettled
    · exact .inr ⟨_, InsertionMap.mem_of_get hp, hticket⟩

/-- **`clear` settles every promise.** -/
theorem clear_settles (h : Kept cfg s) {ticket : Nat} (hlt : ticket < s.nextTicket) :
    ticket ∈ (clear s).settled := by
  have hsettled : (clear s).settled = s.settled ++ s.queue.map QueuedExecution.ticket ++
      s.pending.map (·.2.ticket) := by
    refine (settled_clearPending s.pending _).2.trans ?_
    rw [settled_settleAll, List.map_map]
    rfl
  rw [hsettled, List.mem_append, List.mem_append]
  by_cases hunsettled : ticket ∈ s.settled
  · exact .inl (.inl hunsettled)
  · rcases h.placed hlt hunsettled with ⟨⟨x, hx, rfl⟩, -⟩ | ⟨e, he, rfl⟩
    · exact .inl (.inr (List.mem_map_of_mem hx))
    · exact .inr (List.mem_map.mpr ⟨e, he, rfl⟩)

/-- Tickets are not given back. -/
theorem nextTicket_le (h : Kept cfg s) (h' : Kept cfg s') (hlog : s.log <+: s'.log) :
    s.nextTicket ≤ s'.nextTicket := by
  have hlength : ∀ {s : State}, Kept cfg s → s.nextTicket = s.accepted.length := fun h => by
    rw [← List.length_map QueuedExecution.ticket, h.ledger.tickets, List.length_range]
  rw [hlength h, hlength h']
  exact (hlog.sublist.filterMap Action.accepted?).length_le

/-- An execution that is accepted takes the next ticket. -/
theorem execute_ticket {code : String} {options : ExecutionOptions}
    (h : Kept cfg (ExecutionQueue.execute cfg s code options)) (hroom : ¬ s.queue.length ≥ cfg.maxSize) :
    s.nextTicket < (ExecutionQueue.execute cfg s code options).nextTicket := by
  have haccepted : .accepted { code, options, ticket := s.nextTicket } ∈
      (ExecutionQueue.execute cfg s code options).log := by
    unfold ExecutionQueue.execute
    rw [if_neg hroom]
    dsimp only
    split
    · exact List.mem_append_right _ List.mem_cons_self
    · exact (processNext_log _).subset (List.mem_append_right _ List.mem_cons_self)
  exact h.ledger.ticket_lt (List.mem_filterMap.mpr ⟨_, haccepted, rfl⟩)

end Kept

/-! ## The settlements of one promise -/

theorem mem_settlementsOf {ticket : Nat} {outcome : Outcome} :
    outcome ∈ s.settlementsOf ticket ↔ .settled ticket outcome ∈ s.log := by
  unfold State.settlementsOf
  rw [List.mem_filterMap]
  constructor
  · rintro ⟨a, ha, heq⟩
    cases a with
    | settled ticket' outcome' =>
      dsimp only at heq
      split at heq
      · next hticket =>
        rw [← hticket, ← Option.some.inj heq]
        exact ha
      · cases heq
    | _ => cases heq
  · exact fun h => ⟨_, h, if_pos rfl⟩

theorem mem_settled {ticket : Nat} : ticket ∈ s.settled ↔ ∃ outcome, .settled ticket outcome ∈ s.log := by
  unfold State.settled
  rw [List.mem_filterMap]
  constructor
  · rintro ⟨a, ha, hticket⟩
    cases a with
    | settled ticket' outcome =>
      rw [← show ticket' = ticket from Option.some.inj hticket]
      exact ⟨outcome, ha⟩
    | _ => cases hticket
  · exact fun ⟨outcome, h⟩ => ⟨_, h, rfl⟩

/-- None is settled twice. -/
theorem Ledger.settlementsOf_length (h : Ledger s) (ticket : Nat) :
    (s.settlementsOf ticket).length ≤ 1 := by
  cases hof : s.settlementsOf ticket with
  | nil => exact Nat.zero_le 1
  | cons outcome rest =>
    have hmem : outcome ∈ s.settlementsOf ticket := hof ▸ List.mem_cons_self
    rw [← hof, settlementsOf_eq h.settled_nodup (mem_settlementsOf.mp hmem)]
    exact Nat.le_refl 1

end Jovian.ExecutionQueue
