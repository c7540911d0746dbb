import Jovian.Client.Settlement

/-!
# Jovian — one execution at a time

`ExecutionQueue` means to have at most one execution at the kernel, and none while the
interrupt of a timed-out one is unanswered. It does, *as long as `clear()` is not called
while such an interrupt is outstanding*: `clear` sets `executing` to false without waiting
for it, so the next `execute()` is sent at once, and the interrupt's own `processNext`
then sends a second one beside it (`clearDuringInterrupt`).

**`single_flight_iff`**: the runs in which that never happens are exactly those in which
every state is a single-flight state and nothing is sent over an outstanding interrupt.

The invariant is `Solo`: `executing` counts what is in flight and what is to be answered,
and every execution in flight still has its entry in `pending`, so `clear` reaches it.
-/

namespace Jovian.ExecutionQueue

variable {cfg : Config} {s s' : State}

/-- At most one execution is in flight, and `busy` says whether one is, or an interrupt is
unanswered. -/
def SingleFlight (s : State) : Prop :=
  s.inFlight.length ≤ 1 ∧ (s.busy = true ↔ s.inFlight ≠ [] ∨ s.interrupted ≠ [])

instance (s : State) : Decidable (SingleFlight s) :=
  inferInstanceAs (Decidable (_ ∧ _))

/-- `clear()` is not called over an unanswered interrupt. -/
def ClearsAnswered (s : State) (e : Event) : Prop :=
  e = .clear → s.interrupted = []

/-- The invariant behind `SingleFlight`. -/
structure Solo (s : State) : Prop where
  count : s.inFlight.length + s.interrupted.length = if s.executing then 1 else 0
  covered : ∀ x ∈ s.inFlight, ∃ e ∈ s.pending, e.2.ticket = x.ticket

theorem solo_init : Solo {} := by
  constructor <;> simp [State.inFlight, State.sent]

namespace Solo

theorem singleFlight (h : Solo s) : SingleFlight s := by
  have hcount := h.count
  unfold SingleFlight State.busy
  cases hexec : s.executing with
  | false =>
    rw [hexec] at hcount
    have hf : s.inFlight = [] := List.length_eq_zero_iff.mp (by simp at hcount; simp [hcount])
    have hi : s.interrupted = [] := by simp at hcount; exact hcount.2
    simp [hf, hi]
  | true =>
    rw [hexec, if_pos rfl] at hcount
    refine ⟨by omega, ⟨fun _ => ?_, fun _ => rfl⟩⟩
    by_contra hnone
    rw [not_or, not_not, not_not] at hnone
    simp [hnone] at hcount

/-- An execution in flight is the only one, and no interrupt is outstanding. -/
theorem alone (h : Solo s) {x : QueuedExecution} (hx : x ∈ s.inFlight) :
    s.inFlight = [x] ∧ s.interrupted = [] ∧ s.executing = true := by
  have hpos : 0 < s.inFlight.length := List.length_pos_of_mem hx
  have hcount := h.count
  have hexec : s.executing = true := by
    by_contra hne
    simp only [Bool.not_eq_true] at hne
    rw [hne, if_neg (by simp)] at hcount
    omega
  rw [hexec, if_pos rfl] at hcount
  obtain ⟨y, hy⟩ := List.length_eq_one_iff.mp (show s.inFlight.length = 1 by omega)
  refine ⟨?_, List.length_eq_zero_iff.mp (by omega), hexec⟩
  rw [hy, List.mem_singleton] at hx
  rw [hy, hx]

/-- While nothing executes, nothing is in flight and no interrupt is outstanding. -/
theorem idle (h : Solo s) (hexec : s.executing = false) :
    s.inFlight = [] ∧ s.interrupted = [] := by
  have hcount := h.count
  rw [hexec, if_neg (by simp)] at hcount
  exact ⟨List.length_eq_zero_iff.mp (by omega), List.length_eq_zero_iff.mp (by omega)⟩

theorem quiet (h : Solo s) (hq : Quiet s s') : Solo s' := by
  constructor
  · rw [hq.inFlight, hq.interrupted, hq.executing]
    exact h.count
  · intro x hx
    rw [hq.inFlight] at hx
    obtain ⟨e, he, ht⟩ := h.covered x hx
    obtain ⟨e', he', -, ht'⟩ := hq.owners' e he
    exact ⟨e', he', ht'.symm.trans ht⟩

theorem note (h : Solo s) {a : Action} (hlog : s'.log = s.log ++ [a]) (hsent : a.sent? = none)
    (hsettled : a.settled? = none) (hexec : s'.executing = s.executing)
    (hi : s'.interrupted = s.interrupted) (hp : s'.pending = s.pending) : Solo s' := by
  have hf := inFlight_note hlog hsent hsettled
  exact ⟨by rw [hf, hi, hexec]; exact h.count, by rw [hf, hp]; exact h.covered⟩

end Solo

/-! ## The callbacks keep `Solo` -/

/-- Settling more leaves nothing in flight that was not in flight. -/
theorem inFlight_eq_nil_of_settled (hf : s.inFlight = []) (hsent : s'.sent = s.sent)
    (hsettled : ∀ t ∈ s.settled, t ∈ s'.settled) : s'.inFlight = [] := by
  rw [List.eq_nil_iff_forall_not_mem] at hf ⊢
  intro x hx
  rw [mem_inFlight, hsent] at hx
  exact hf x (mem_inFlight.mpr ⟨hx.1, fun ht => hx.2 (hsettled _ ht)⟩)

/-- `processNext` with nothing in flight sends at most one execution. -/
theorem solo_processNext (hl : Ledger s) (hf : s.inFlight = []) (hi : s.interrupted = []) :
    Solo (processNext cfg s) := by
  unfold processNext
  have hprocessed := @processQueue_processed cfg s.queue s
  generalize processQueue cfg s.queue s = s' at hprocessed
  cases hprocessed with
  | drained failed sends hqueue _ =>
    set s₁ : State := { s with queue := [], executing := false, sends }
    have hnone : (s₁.settleAll (settlements failed)).inFlight = [] :=
      inFlight_eq_nil_of_settled hf (sent_settleAll s₁ _)
        fun t ht => (settled_settleAll s₁ _).symm ▸ List.mem_append_left _ ht
    constructor
    · rw [hnone]
      simp [State.settleAll, s₁, hi]
    · simp [hnone]
  | sent failed n item rest msgId hqueue _ _ _ =>
    set s₁ : State := { s with queue := rest, executing := true, sends := n + 1 }
    have hnone : (s₁.settleAll (settlements failed)).inFlight = [] :=
      inFlight_eq_nil_of_settled hf (sent_settleAll s₁ _)
        fun t ht => (settled_settleAll s₁ _).symm ▸ List.mem_append_left _ ht
    have hdrop : Ledger (State.settleAll { s with queue := item :: rest } (settlements failed)) :=
      hl.drop hqueue (settlements failed) (settlements_fst failed)
    have hitem : item.ticket ∉ (s₁.settleAll (settlements failed)).settled :=
      hdrop.queue_unsettled item List.mem_cons_self
    have hone : (startPending (s₁.settleAll (settlements failed)) item msgId).inFlight = [item] := by
      rw [State.inFlight, sent_startPending, settled_startPending, List.filter_append]
      rw [show List.filter _ _ = [] from hnone, List.nil_append]
      exact List.filter_eq_self.mpr fun x hx => by
        rw [List.mem_singleton.mp hx]
        exact decide_eq_true hitem
    constructor
    · rw [hone]
      simp [startPending, State.settleAll, s₁, hi]
    · intro x hx
      rw [hone, List.mem_singleton] at hx
      exact ⟨_, InsertionMap.mem_set.mpr (.inl rfl), by rw [hx]⟩

/-- The owner of a pending entry is in flight. -/
theorem exists_inFlight_of_pending (hl : Ledger s) {e : String × PendingExecution}
    (he : e ∈ s.pending) : ∃ x ∈ s.inFlight, x.ticket = e.2.ticket := by
  obtain ⟨x, hx, ht⟩ := hl.owner_sent e he
  exact ⟨x, mem_inFlight.mpr ⟨hx, ht ▸ hl.owner_unsettled e he⟩, ht⟩

/-- Once the only execution in flight is retired, none is. -/
theorem inFlight_retire {x : QueuedExecution} (hx : s.inFlight = [x]) (msgId : String)
    (outcome : Outcome) : (s.retire msgId x.ticket outcome).inFlight = [] := by
  rw [List.eq_nil_iff_forall_not_mem]
  intro y hy
  rw [mem_inFlight, sent_retire, settled_retire, List.mem_append, not_or] at hy
  have hmem : y ∈ s.inFlight := mem_inFlight.mpr ⟨hy.1, hy.2.1⟩
  rw [hx, List.mem_singleton] at hmem
  exact hy.2.2 (by simp [hmem])

theorem quiet_abort (s : State) (abort : Bool) :
    (abortQueuedIf s abort).sent = s.sent ∧ (∀ t ∈ s.settled, t ∈ (abortQueuedIf s abort).settled) ∧
      (abortQueuedIf s abort).interrupted = s.interrupted := by
  cases abort with
  | false => exact ⟨rfl, fun _ h => h, rfl⟩
  | true =>
    refine ⟨sent_settleAll _ _, fun t ht => ?_, rfl⟩
    rw [abortQueuedIf, if_pos rfl, abortQueued, settled_settleAll]
    exact List.mem_append_left _ ht

theorem Finishes.solo (hf : Finishes cfg s s') (hl : Ledger s) (h : Solo s) : Solo s' := by
  cases hf with
  | intro s₁ msgId p p' abort result hquiet hmem hticket =>
    unfold finish
    rw [hticket]
    have hl₁ := hl.quiet hquiet
    obtain ⟨x, hx, ht⟩ := exists_inFlight_of_pending hl₁ hmem
    obtain ⟨hone, hi, -⟩ := (h.quiet hquiet).alone hx
    obtain ⟨hsent, hsettled, hinterrupted⟩ := quiet_abort s₁ abort
    have hmem' := (Ledger.pending_abortQueuedIf s₁ abort).symm ▸ hmem
    refine solo_processNext ((hl₁.abortQueuedIf abort).retire_pending hmem' _) ?_
      (hinterrupted.trans hi)
    -- the entry's own execution is the one in flight
    have hretired := inFlight_retire hone msgId (.resolved result)
    rw [ht] at hretired
    refine inFlight_eq_nil_of_settled hretired ?_ fun t ht => ?_
    · rw [sent_retire, sent_retire, hsent]
    · rw [settled_retire, List.mem_append] at ht ⊢
      exact ht.imp_left (hsettled t)

theorem settled_clearPending (es : List (String × PendingExecution)) (s : State) :
    let s' := es.foldl (fun s e => s.retire e.1 e.2.ticket (.rejected CLEARED_MESSAGE)) s
    s'.sent = s.sent ∧ s'.settled = s.settled ++ es.map (·.2.ticket) := by
  induction es generalizing s with
  | nil => simp
  | cons e es ih =>
    obtain ⟨hsent, hsettled⟩ := ih (s.retire e.1 e.2.ticket (.rejected CLEARED_MESSAGE))
    rw [sent_retire] at hsent
    rw [settled_retire, List.append_assoc] at hsettled
    exact ⟨hsent, hsettled⟩

/-- `clear` reaches every execution in flight that has its entry. -/
theorem Solo.clear (h : Solo s) (hi : s.interrupted = []) : Solo (clear s) := by
  obtain ⟨-, hexec, hinterrupted⟩ := clear_idle s
  have hnone : (ExecutionQueue.clear s).inFlight = [] := by
    rw [List.eq_nil_iff_forall_not_mem]
    intro x hx
    rw [mem_inFlight] at hx
    set s₁ := State.settleAll { s with queue := [], executing := false }
      (s.queue.map fun item => (item.ticket, Outcome.rejected CLEARED_MESSAGE))
    obtain ⟨hsent, hsettled⟩ := settled_clearPending s.pending s₁
    change x ∈ (List.foldl _ s₁ s.pending).sent ∧ x.ticket ∉ (List.foldl _ s₁ s.pending).settled at hx
    rw [hsent, hsettled, sent_settleAll, settled_settleAll] at hx
    have hx' : x ∈ s.inFlight :=
      mem_inFlight.mpr ⟨hx.1, fun ht => hx.2 (List.mem_append_left _ (List.mem_append_left _ ht))⟩
    obtain ⟨e, he, ht⟩ := h.covered x hx'
    exact hx.2 (List.mem_append_right _ (List.mem_map.mpr ⟨e, he, ht⟩))
  constructor
  · rw [hnone, hinterrupted, hexec, hi]
    rfl
  · simp [hnone]

theorem Solo.execute (h : Solo s) (hl : Ledger s) (code : String) (options : ExecutionOptions) :
    Solo (execute cfg s code options) := by
  unfold ExecutionQueue.execute
  split
  · exact h.note rfl rfl rfl rfl rfl rfl
  · dsimp only
    split
    · exact h.note rfl rfl rfl rfl rfl rfl
    · next hexec =>
      obtain ⟨hf, hi⟩ := h.idle (by simpa using hexec)
      refine solo_processNext (hl.accept code options) ?_ hi
      rw [inFlight_note (s := s) rfl rfl rfl]
      exact hf

theorem Solo.timeout (h : Solo s) (hl : Ledger s) {t : Timer} (ht : t ∈ s.timers) :
    Solo (timeout cfg s t) := by
  obtain ⟨hone, hi, hexec⟩ :=
    h.alone (mem_inFlight.mpr ⟨hl.timer_sent t ht, hl.timer_unsettled t ht⟩)
  have hnone : (ExecutionQueue.timeout cfg s t).inFlight = [] := inFlight_retire hone t.msgId _
  constructor
  · rw [hnone]
    simp [ExecutionQueue.timeout, State.retire, State.clearTimer, State.settle, hi, hexec]
  · simp [hnone]

theorem Solo.interruptCompleted (h : Solo s) (hl : Ledger s) {ticket : Nat}
    (ht : ticket ∈ s.interrupted) : Solo (interruptCompleted cfg s ticket) := by
  have hcount := h.count
  have hpos : 0 < s.interrupted.length := List.length_pos_of_mem ht
  have hle : (if s.executing = true then 1 else 0) ≤ 1 := by split <;> omega
  have hf : s.inFlight = [] := List.length_eq_zero_iff.mp (by omega)
  obtain ⟨t, hone⟩ := List.length_eq_one_iff.mp (show s.interrupted.length = 1 by omega)
  obtain rfl : ticket = t := by simpa [hone] using ht
  exact solo_processNext (hl.with_flags s.executing (s.interrupted.erase ticket) s.sends) hf
    (by simp [hone])

theorem Solo.step (h : Solo s) (hl : Ledger s) {e : Event} (he : ClearsAnswered s e) :
    Solo (step cfg s e) := by
  have hcallback := @step_callback cfg s hl.keys e
  generalize ExecutionQueue.step cfg s e = s' at hcallback ⊢
  cases hcallback with
  | execute code options => exact h.execute hl code options
  | clear => exact h.clear (he rfl)
  | quiet hquiet => exact h.quiet hquiet
  | finishes hfinishes => exact hfinishes.solo hl h
  | timeout ticket t ht => exact h.timeout hl ht
  | interruptCompleted ticket ht => exact h.interruptCompleted hl ht

/-- **In every run that never clears over an unanswered interrupt, `Solo` holds.** -/
theorem solo_reachable : ∀ s, ((system cfg).when ClearsAnswered).Reachable s → Solo s := by
  apply Transition.System.invariant
  · rintro s rfl
    exact solo_init
  · rintro s e _ hs h ⟨he, rfl⟩
    exact h.step (ledger_reachable s hs.of_when) he

/-! ## What a send finds -/

/-- An execution just sent by `processNext` is in flight. -/
theorem processNext_sends (hl : Ledger s) :
    (processNext cfg s).sent = s.sent ∨ (processNext cfg s).inFlight ≠ [] := by
  unfold processNext
  have hprocessed := @processQueue_processed cfg s.queue s
  generalize processQueue cfg s.queue s = s' at hprocessed
  cases hprocessed with
  | drained failed sends hqueue _ => exact .inl (sent_settleAll _ _)
  | sent failed n item rest msgId hqueue _ _ _ =>
    have hdrop : Ledger (State.settleAll { s with queue := item :: rest } (settlements failed)) :=
      hl.drop hqueue (settlements failed) (settlements_fst failed)
    refine .inr (List.ne_nil_of_mem (a := item) (mem_inFlight.mpr ⟨by simp, ?_⟩))
    rw [settled_startPending]
    exact hdrop.queue_unsettled item List.mem_cons_self

theorem Finishes.sends (hf : Finishes cfg s s') (hl : Ledger s) :
    s'.sent = s.sent ∨ s'.inFlight ≠ [] := by
  cases hf with
  | intro s₁ msgId p p' abort result hquiet hmem hticket =>
    unfold finish
    rw [hticket]
    have hl₁ := hl.quiet hquiet
    have hmem' := (Ledger.pending_abortQueuedIf s₁ abort).symm ▸ hmem
    refine (processNext_sends ((hl₁.abortQueuedIf abort).retire_pending hmem' _)).imp_left ?_
    intro hsent
    rw [hsent, sent_retire, (quiet_abort s₁ abort).1, hquiet.sent]

theorem sent_clear (s : State) : (clear s).sent = s.sent :=
  (settled_clearPending s.pending _).1.trans (sent_settleAll _ _)

/-- A callback that sends leaves what it sent in flight. -/
theorem step_sends (hl : Ledger s) (e : Event) :
    (step cfg s e).sent = s.sent ∨ (step cfg s e).inFlight ≠ [] := by
  have hcallback := @step_callback cfg s hl.keys e
  generalize step cfg s e = s' at hcallback ⊢
  cases hcallback with
  | execute code options =>
    unfold execute
    split
    · exact .inl (List.filterMap_append.trans (List.append_nil _))
    · dsimp only
      split
      · exact .inl (List.filterMap_append.trans (List.append_nil _))
      · refine (processNext_sends (hl.accept code options)).imp_left fun h => h.trans ?_
        exact List.filterMap_append.trans (List.append_nil _)
  | clear => exact .inl (sent_clear s)
  | quiet hquiet => exact .inl hquiet.sent
  | finishes hfinishes => exact hfinishes.sends hl
  | timeout ticket t => exact .inl (sent_retire _ _ _ _)
  | interruptCompleted ticket =>
    exact processNext_sends (hl.with_flags s.executing (s.interrupted.erase ticket) s.sends)

/-! ## The headline -/

theorem run_snoc (cfg : Config) (es : List Event) (e : Event) :
    run cfg (es ++ [e]) = step cfg (run cfg es) e := by
  rw [run, List.foldl_append]
  rfl

/-- One execution at a time, all along the callbacks `es`: every state is single-flight,
and a callback that sends leaves no interrupt unanswered. -/
def OneAtATime (cfg : Config) (es : List Event) : Prop :=
  (∀ pre, pre <+: es → SingleFlight (run cfg pre)) ∧
  ∀ pre e, pre ++ [e] <+: es → (run cfg (pre ++ [e])).sent ≠ (run cfg pre).sent →
    (run cfg (pre ++ [e])).interrupted = []

/-- `Solo` along a run that clears only over answered interrupts. -/
theorem solo_run {es : List Event}
    (hes : ∀ pre, pre ++ [.clear] <+: es → (run cfg pre).interrupted = []) :
    Solo (run cfg es) := by
  refine solo_reachable _ (Transition.System.reachable_when_foldl fun pre e hpre => ?_)
  rintro rfl
  exact hes pre hpre

/-- **Single flight.** Whatever the addon answers and in whatever order the callbacks
run, the queue executes one at a time exactly when `clear()` is never called while the
interrupt of a timed-out execution is unanswered. -/
theorem single_flight_iff (cfg : Config) (es : List Event) :
    OneAtATime cfg es ↔
      ∀ pre, pre ++ [.clear] <+: es → (run cfg pre).interrupted = [] := by
  constructor
  · -- a clear over an outstanding interrupt leaves a queue that is not busy
    rintro ⟨hsingle, -⟩ pre hpre
    obtain ⟨-, hbusy⟩ := hsingle _ hpre
    obtain ⟨-, hexec, hinterrupted⟩ := clear_idle (run cfg pre)
    rw [run_snoc] at hbusy
    change ((clear (run cfg pre)).executing = true ↔ _ ∨ (clear (run cfg pre)).interrupted ≠ [])
      at hbusy
    rw [hexec, hinterrupted] at hbusy
    by_contra hne
    exact absurd (hbusy.mpr (.inr hne)) Bool.false_ne_true
  · intro hes
    have hsolo : ∀ pre, pre <+: es → Solo (run cfg pre) := fun pre hpre =>
      solo_run fun pre' h => hes pre' (h.trans hpre)
    refine ⟨fun pre hpre => (hsolo pre hpre).singleFlight, fun pre e hpre hsent => ?_⟩
    have h := hsolo _ hpre
    rw [run_snoc] at h hsent ⊢
    rcases step_sends (ledger_run cfg pre) e with heq | hne
    · exact absurd heq hsent
    · obtain ⟨x, hx⟩ := List.exists_mem_of_ne_nil _ hne
      exact (h.alone hx).2.1

/-- An addon that names the executions `i`, `ii`, `iii`, … in the order it is called. -/
def counting : Config where
  addon n _ := .returned (String.ofList (List.replicate (n + 1) 'i'))

/-- An execution times out, the queue is cleared before the interrupt is answered, and two
more executions are asked for. -/
def clearDuringInterrupt : List Event :=
  [.execute "a" {}, .timeout 0, .clear, .execute "b" {}, .execute "c" {}, .interruptCompleted 0]

/-- **Clearing over an unanswered interrupt breaks single flight**: `b` is sent at once,
and the interrupt's answer sends `c` beside it. -/
theorem clear_during_interrupt_sends_two :
    ¬ OneAtATime counting clearDuringInterrupt ∧
    (run counting clearDuringInterrupt).inFlight.map QueuedExecution.code = ["b", "c"] := by
  refine ⟨fun h => ?_, by decide⟩
  have := (h.1 _ (List.prefix_refl _)).1
  exact absurd this (by decide)

end Jovian.ExecutionQueue
