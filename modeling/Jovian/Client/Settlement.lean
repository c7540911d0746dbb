import Jovian.Client.Ledger

/-!
# Jovian — order and settlement of the executions

`Ledger` holds of every run, so the executions sent are a subsequence of those accepted,
no promise is settled twice and none is sent once settled. What is left is that no
execution is stranded: `Occupied`, kept because every callback that settles an execution
either leaves an interrupt to be answered, or empties the queue, or ends in `processNext`
— and `processNext` only leaves something queued behind an execution it has just sent.
-/

namespace Jovian.ExecutionQueue

variable {cfg : Config} {s s' : State}

/-- The queue's states are those its event lists lead to. -/
theorem reachable_run (cfg : Config) (es : List Event) : (system cfg).Reachable (run cfg es) :=
  Transition.System.reachable_foldl ({} : State) (step cfg) es

theorem ledger_reachable : ∀ s, (system cfg).Reachable s → Ledger s := by
  apply Transition.System.invariant
  · rintro s rfl
    exact ledger_init
  · rintro s e _ - h rfl
    exact h.step e

theorem ledger_run (cfg : Config) (es : List Event) : Ledger (run cfg es) :=
  ledger_reachable _ (reachable_run cfg es)

theorem mem_inFlight {x : QueuedExecution} :
    x ∈ s.inFlight ↔ x ∈ s.sent ∧ x.ticket ∉ s.settled := by
  simp [State.inFlight]

/-- An action that neither sends nor settles leaves what is in flight alone. -/
theorem inFlight_note {a : Action} (hlog : s'.log = s.log ++ [a]) (hsent : a.sent? = none)
    (hsettled : a.settled? = none) : s'.inFlight = s.inFlight := by
  have h₁ : s'.sent = s.sent := by
    rw [State.sent, hlog, List.filterMap_append]
    simp [hsent, State.sent]
  have h₂ : s'.settled = s.settled := by
    rw [State.settled, hlog, List.filterMap_append]
    simp [hsettled, State.settled]
  rw [State.inFlight, h₁, h₂, State.inFlight]

/-! ## No execution is stranded -/

/-- **`processNext` leaves the queue occupied.** What it leaves queued waits behind the
execution it sent. -/
theorem occupied_processNext (h : Ledger s) : Occupied (processNext cfg s) := by
  unfold processNext
  have hprocessed := @processQueue_processed cfg s.queue s
  generalize processQueue cfg s.queue s = s' at hprocessed
  cases hprocessed with
  | drained failed sends hqueue _ =>
    exact ⟨fun hne => absurd rfl hne, fun hexec => nomatch hexec⟩
  | sent failed n item rest msgId hqueue _ _ _ =>
    refine ⟨fun _ => rfl, fun _ => .inl (List.ne_nil_of_mem (a := item) (mem_inFlight.mpr ⟨?_, ?_⟩))⟩
    · simp
    · rw [settled_startPending]
      have hdrop : Ledger (State.settleAll { s with queue := item :: rest } (settlements failed)) :=
        h.drop hqueue (settlements failed) (settlements_fst failed)
      exact hdrop.queue_unsettled item List.mem_cons_self

theorem Occupied.quiet (h : Occupied s) (hq : Quiet s s') : Occupied s' := by
  constructor
  · rw [hq.queue, hq.executing]
    exact h.executing_of_queue
  · rw [hq.executing, hq.inFlight, hq.interrupted]
    exact h.occupied

theorem Finishes.occupied (hl : Ledger s) (hf : Finishes cfg s s') : Occupied s' := by
  cases hf with
  | intro s₁ msgId p p' abort result hquiet hmem hticket =>
    unfold finish
    rw [hticket]
    have h₁ := (hl.quiet hquiet).abortQueuedIf abort
    exact occupied_processNext
      (h₁.retire_pending ((Ledger.pending_abortQueuedIf s₁ abort).symm ▸ hmem) _)

/-- The loop of `clear` leaves the queue and `executing` as they are. -/
theorem clearPending_idle (es : List (String × PendingExecution)) (s : State) :
    let s' := es.foldl (fun s e => s.retire e.1 e.2.ticket (.rejected CLEARED_MESSAGE)) s
    s'.queue = s.queue ∧ s'.executing = s.executing ∧ s'.interrupted = s.interrupted := by
  induction es generalizing s with
  | nil => exact ⟨rfl, rfl, rfl⟩
  | cons e es ih => exact ih (s.retire e.1 e.2.ticket (.rejected CLEARED_MESSAGE))

theorem clear_idle (s : State) :
    (clear s).queue = [] ∧ (clear s).executing = false ∧ (clear s).interrupted = s.interrupted :=
  clearPending_idle _ _

theorem Occupied.execute (h : Occupied s) (hl : Ledger s) (code : String)
    (options : ExecutionOptions) : Occupied (execute cfg s code options) := by
  unfold ExecutionQueue.execute
  split
  · refine ⟨h.executing_of_queue, fun hexec => ?_⟩
    rw [inFlight_note (s := s) rfl rfl rfl]
    exact h.occupied hexec
  · dsimp only
    split
    · next hexec =>
      refine ⟨fun _ => hexec, fun _ => ?_⟩
      rw [inFlight_note (s := s) rfl rfl rfl]
      exact h.occupied hexec
    · exact occupied_processNext (hl.accept code options)

theorem Occupied.step (h : Occupied s) (hl : Ledger s) (e : Event) : Occupied (step cfg s e) := by
  have hcallback := @step_callback cfg s hl.keys e
  generalize ExecutionQueue.step cfg s e = s' at hcallback ⊢
  cases hcallback with
  | execute code options => exact h.execute hl code options
  | clear =>
    obtain ⟨hqueue, hexec, -⟩ := clear_idle s
    exact ⟨fun hne => absurd hqueue hne, fun hbusy => nomatch hexec.symm.trans hbusy⟩
  | quiet hquiet => exact h.quiet hquiet
  | finishes hfinishes => exact hfinishes.occupied hl
  -- an interrupt is to be answered
  | timeout ticket t => exact ⟨h.executing_of_queue, fun _ => .inr (List.concat_ne_nil _ _)⟩
  | interruptCompleted ticket =>
    exact occupied_processNext (hl.with_flags s.executing (s.interrupted.erase ticket) s.sends)

theorem occupied_run (cfg : Config) (es : List Event) : Occupied (run cfg es) := by
  refine Transition.System.invariant (M := system cfg) ?_ ?_ _ (reachable_run cfg es)
  · rintro s rfl
    exact occupied_init
  · rintro s e _ hs h rfl
    exact h.step (ledger_reachable s hs) e

/-! ## The headline -/

/-- **Order and settlement.** Whatever the addon answers and in whatever order the
callbacks run: the executions sent are a subsequence of those accepted; tickets tell the
accepted executions apart, and none is settled twice; nothing is sent after it was
settled; and while anything is queued, an execution is in flight or a timed-out one's
interrupt is unanswered. -/
theorem sent_in_order_settled_once (cfg : Config) (es : List Event) :
    (run cfg es).sent.Sublist (run cfg es).accepted ∧
    ((run cfg es).accepted.map QueuedExecution.ticket).Nodup ∧
    (run cfg es).settled.Nodup ∧
    (run cfg es).log.Pairwise SentBeforeSettled ∧
    ((run cfg es).queue ≠ [] → (run cfg es).inFlight ≠ [] ∨ (run cfg es).interrupted ≠ []) := by
  have hl := ledger_run cfg es
  have ho := occupied_run cfg es
  refine ⟨?_, ?_, hl.settled_nodup, hl.order, ?_⟩
  · exact (List.sublist_append_left _ _).trans hl.sublist
  · rw [hl.tickets]
    exact List.nodup_range
  · exact fun hne => ho.occupied (ho.executing_of_queue hne)

end Jovian.ExecutionQueue
