import Jovian.Client.ExecutionQueue
import Mathlib.Data.List.Perm.Lattice
import Mathlib.Tactic.Ring

/-!
# Jovian — the ledger of the execution queue

What every state of an `ExecutionQueue` satisfies, whatever the addon returns and in
whatever order the callbacks run: `Ledger` ties the queue, the pending executions and the
armed timers to the log, and `Occupied` says that a waiting execution is never stranded.

The arguments are made once per *micro-operation*, not once per callback:

* **`Ledger.drop`** — executions leave the front of the queue, settled (`processNext`
  rejecting a failed send, `abortQueued`, `clear`);
* **`Ledger.start`** — the front of the queue is sent;
* **`Ledger.retire`** — a pending or timed-out execution is settled;
* **`Ledger.quiet`** — nothing but the collected output and the waits changes.

`processQueue_processed` and `step_callback` say which of them a callback is made of; no later proof
opens the callbacks again.
-/

namespace Jovian.ExecutionQueue

/-! ## The log under the micro-operations -/

section Log

variable (s : State) (ticket : Nat) (outcome : Outcome) (os : List (Nat × Outcome))

@[simp] theorem accepted_settleAll : (s.settleAll os).accepted = s.accepted := by
  simp [State.settleAll, State.accepted, List.filterMap_append, List.filterMap_map,
    Function.comp_def, Action.accepted?]

@[simp] theorem sent_settleAll : (s.settleAll os).sent = s.sent := by
  simp [State.settleAll, State.sent, List.filterMap_append, List.filterMap_map,
    Function.comp_def, Action.sent?]

@[simp] theorem settled_settleAll : (s.settleAll os).settled = s.settled ++ os.map Prod.fst := by
  simp [State.settleAll, State.settled, List.filterMap_append, List.filterMap_map,
    Function.comp_def, Action.settled?]

@[simp] theorem accepted_retire (msgId : String) :
    (s.retire msgId ticket outcome).accepted = s.accepted :=
  accepted_settleAll { s.clearTimer ticket with pending := s.pending.delete msgId } [(ticket, outcome)]

@[simp] theorem sent_retire (msgId : String) :
    (s.retire msgId ticket outcome).sent = s.sent :=
  sent_settleAll { s.clearTimer ticket with pending := s.pending.delete msgId } [(ticket, outcome)]

@[simp] theorem settled_retire (msgId : String) :
    (s.retire msgId ticket outcome).settled = s.settled ++ [ticket] :=
  settled_settleAll { s.clearTimer ticket with pending := s.pending.delete msgId } [(ticket, outcome)]

@[simp] theorem accepted_startPending (item : QueuedExecution) (msgId : String) :
    (startPending s item msgId).accepted = s.accepted := by
  simp [startPending, State.accepted, Action.accepted?]

@[simp] theorem sent_startPending (item : QueuedExecution) (msgId : String) :
    (startPending s item msgId).sent = s.sent ++ [item] := by
  simp [startPending, State.sent, Action.sent?]

@[simp] theorem settled_startPending (item : QueuedExecution) (msgId : String) :
    (startPending s item msgId).settled = s.settled := by
  simp [startPending, State.settled, Action.settled?]

end Log

/-! ## The invariant -/

/-- No action sends an execution that an earlier one settled. -/
def SentBeforeSettled (a b : Action) : Prop :=
  ∀ ticket, a.settled? = some ticket → ∀ item, b.sent? = some item → item.ticket ≠ ticket

/-- The bookkeeping of the queue: every execution accepted is, in the order it was
accepted, either already sent, still queued, or dropped and settled; what is pending or
timed is sent and not settled. -/
structure Ledger (s : State) : Prop where
  tickets : s.accepted.map QueuedExecution.ticket = List.range s.nextTicket
  sublist : (s.sent ++ s.queue).Sublist s.accepted
  settled_lt : ∀ t ∈ s.settled, t < s.nextTicket
  settled_nodup : s.settled.Nodup
  queue_unsettled : ∀ x ∈ s.queue, x.ticket ∉ s.settled
  keys : s.pending.Unique
  owner_sent : ∀ e ∈ s.pending, ∃ x ∈ s.sent, x.ticket = e.2.ticket
  owner_unsettled : ∀ e ∈ s.pending, e.2.ticket ∉ s.settled
  owner_inj : ∀ e ∈ s.pending, ∀ e' ∈ s.pending, e.2.ticket = e'.2.ticket → e.1 = e'.1
  timer_sent : ∀ t ∈ s.timers, t.item ∈ s.sent
  timer_unsettled : ∀ t ∈ s.timers, t.item.ticket ∉ s.settled
  timer_owner : ∀ t ∈ s.timers, ∀ e ∈ s.pending, e.2.ticket = t.item.ticket → e.1 = t.msgId
  order : s.log.Pairwise SentBeforeSettled

/-- A waiting execution waits for a running one or for an interrupt's answer. -/
structure Occupied (s : State) : Prop where
  executing_of_queue : s.queue ≠ [] → s.executing = true
  occupied : s.executing = true → s.inFlight ≠ [] ∨ s.interrupted ≠ []

theorem ledger_init : Ledger {} := by
  constructor <;> simp [State.accepted, State.sent, State.settled, InsertionMap.Unique]

theorem occupied_init : Occupied {} := by
  constructor <;> simp

namespace Ledger

variable {s : State}

theorem ticket_lt (h : Ledger s) {x : QueuedExecution} (hx : x ∈ s.accepted) :
    x.ticket < s.nextTicket := by
  have := List.mem_map_of_mem (f := QueuedExecution.ticket) hx
  rwa [h.tickets, List.mem_range] at this

theorem mem_accepted_of_sent (h : Ledger s) {x : QueuedExecution} (hx : x ∈ s.sent) :
    x ∈ s.accepted :=
  h.sublist.subset (List.mem_append_left _ hx)

theorem mem_accepted_of_queue (h : Ledger s) {x : QueuedExecution} (hx : x ∈ s.queue) :
    x ∈ s.accepted :=
  h.sublist.subset (List.mem_append_right _ hx)

/-- Sent and queued executions are pairwise different promises. -/
theorem nodup_tickets (h : Ledger s) :
    ((s.sent ++ s.queue).map QueuedExecution.ticket).Nodup :=
  (h.sublist.map _).nodup (h.tickets ▸ List.nodup_range)

theorem queue_ne_sent (h : Ledger s) {x y : QueuedExecution} (hx : x ∈ s.queue)
    (hy : y ∈ s.sent) : x.ticket ≠ y.ticket := by
  have := h.nodup_tickets
  rw [List.map_append, List.nodup_append] at this
  exact fun heq => this.2.2 _ (List.mem_map_of_mem hy) _ (List.mem_map_of_mem hx) heq.symm

end Ledger

/-! ## The micro-operations keep the ledger -/

/-- `s'` differs from `s` in what the pending executions have collected and wait for, and
in timers that were cleared: nothing was accepted, sent or settled. -/
structure Quiet (s s' : State) : Prop where
  log : s'.log = s.log
  queue : s'.queue = s.queue
  executing : s'.executing = s.executing
  interrupted : s'.interrupted = s.interrupted
  nextTicket : s'.nextTicket = s.nextTicket
  timers : s'.timers ⊆ s.timers
  keys : s.pending.Unique → s'.pending.Unique
  owners : ∀ e ∈ s'.pending, ∃ e₀ ∈ s.pending, e₀.1 = e.1 ∧ e₀.2.ticket = e.2.ticket
  owners' : ∀ e₀ ∈ s.pending, ∃ e ∈ s'.pending, e₀.1 = e.1 ∧ e₀.2.ticket = e.2.ticket

theorem Quiet.refl (s : State) : Quiet s s :=
  ⟨rfl, rfl, rfl, rfl, rfl, fun _ h => h, id, fun e he => ⟨e, he, rfl, rfl⟩,
    fun e he => ⟨e, he, rfl, rfl⟩⟩

theorem Quiet.trans {s s' s'' : State} (h : Quiet s s') (h' : Quiet s' s'') : Quiet s s'' where
  log := h'.log.trans h.log
  queue := h'.queue.trans h.queue
  executing := h'.executing.trans h.executing
  interrupted := h'.interrupted.trans h.interrupted
  nextTicket := h'.nextTicket.trans h.nextTicket
  timers := List.Subset.trans h'.timers h.timers
  keys hk := h'.keys (h.keys hk)
  owners e he := by
    obtain ⟨e₁, he₁, hid₁, ht₁⟩ := h'.owners e he
    obtain ⟨e₀, he₀, hid₀, ht₀⟩ := h.owners e₁ he₁
    exact ⟨e₀, he₀, hid₀.trans hid₁, ht₀.trans ht₁⟩
  owners' e he := by
    obtain ⟨e₁, he₁, hid₁, ht₁⟩ := h.owners' e he
    obtain ⟨e₂, he₂, hid₂, ht₂⟩ := h'.owners' e₁ he₁
    exact ⟨e₂, he₂, hid₁.trans hid₂, ht₁.trans ht₂⟩

section Quiet

variable {s s' : State} (h : Quiet s s')

include h

theorem Quiet.accepted : s'.accepted = s.accepted := by rw [State.accepted, h.log]; rfl

theorem Quiet.sent : s'.sent = s.sent := by rw [State.sent, h.log]; rfl

theorem Quiet.settled : s'.settled = s.settled := by rw [State.settled, h.log]; rfl

theorem Quiet.inFlight : s'.inFlight = s.inFlight := by
  rw [State.inFlight, h.sent, h.settled]; rfl

end Quiet

namespace Ledger

variable {s s' : State}

theorem quiet (h : Ledger s) (hq : Quiet s s') : Ledger s' where
  tickets := by rw [hq.accepted, hq.nextTicket]; exact h.tickets
  sublist := by rw [hq.sent, hq.queue, hq.accepted]; exact h.sublist
  settled_lt := by rw [hq.settled, hq.nextTicket]; exact h.settled_lt
  settled_nodup := by rw [hq.settled]; exact h.settled_nodup
  queue_unsettled := by rw [hq.queue, hq.settled]; exact h.queue_unsettled
  keys := hq.keys h.keys
  owner_sent e he := by
    obtain ⟨e₀, he₀, -, ht⟩ := hq.owners e he
    rw [hq.sent, ← ht]
    exact h.owner_sent e₀ he₀
  owner_unsettled e he := by
    obtain ⟨e₀, he₀, -, ht⟩ := hq.owners e he
    rw [hq.settled, ← ht]
    exact h.owner_unsettled e₀ he₀
  owner_inj e he e' he' heq := by
    obtain ⟨e₀, he₀, hid, ht⟩ := hq.owners e he
    obtain ⟨e₀', he₀', hid', ht'⟩ := hq.owners e' he'
    rw [← hid, ← hid']
    exact h.owner_inj e₀ he₀ e₀' he₀' (by rw [ht, ht', heq])
  timer_sent t ht := by rw [hq.sent]; exact h.timer_sent t (hq.timers ht)
  timer_unsettled t ht := by rw [hq.settled]; exact h.timer_unsettled t (hq.timers ht)
  timer_owner t ht e he heq := by
    obtain ⟨e₀, he₀, hid, hte⟩ := hq.owners e he
    rw [← hid]
    exact h.timer_owner t (hq.timers ht) e₀ he₀ (hte.trans heq)
  order := by rw [hq.log]; exact h.order

/-- Settling never sends, so it cannot break the order of the log. -/
theorem order_settleAll (h : Ledger s) (os : List (Nat × Outcome)) :
    (s.settleAll os).log.Pairwise SentBeforeSettled := by
  have hnever : ∀ a, ∀ b ∈ os.map (fun o => Action.settled o.1 o.2), SentBeforeSettled a b := by
    intro a b hb ticket _ item hsent
    obtain ⟨o, _, rfl⟩ := List.mem_map.mp hb
    simp [Action.sent?] at hsent
  refine List.pairwise_append.mpr ⟨h.order, ?_, fun a _ b hb => hnever a b hb⟩
  exact List.pairwise_of_forall_mem_list fun a _ b hb => hnever a b hb

/-- **The front of the queue is settled unsent.** -/
theorem drop (h : Ledger s) {pre rest : List QueuedExecution} (hqueue : s.queue = pre ++ rest)
    (os : List (Nat × Outcome)) (hos : os.map Prod.fst = pre.map QueuedExecution.ticket) :
    Ledger ({ s with queue := rest }.settleAll os) := by
  have hmem : ∀ {t : Nat}, t ∈ os.map Prod.fst → ∃ x ∈ pre, x.ticket = t := by
    intro t ht
    rw [hos] at ht
    exact List.mem_map.mp ht
  have hpre : ∀ x ∈ pre, x ∈ s.queue := fun x hx => hqueue ▸ List.mem_append_left _ hx
  have hrest : ∀ x ∈ rest, x ∈ s.queue := fun x hx => hqueue ▸ List.mem_append_right _ hx
  have hnodup := h.nodup_tickets
  rw [hqueue, List.map_append, List.map_append, List.nodup_append, List.nodup_append] at hnodup
  obtain ⟨-, ⟨hpre_nodup, -, hpre_rest⟩, -⟩ := hnodup
  -- an execution that was sent is none of those dropped
  have hsent : ∀ x ∈ s.sent, x.ticket ∉ os.map Prod.fst := by
    intro x hx ht
    obtain ⟨y, hy, hyx⟩ := hmem ht
    exact h.queue_ne_sent (hpre y hy) hx hyx
  constructor
  · rw [accepted_settleAll]
    exact h.tickets
  · rw [sent_settleAll, accepted_settleAll]
    refine List.Sublist.trans ?_ h.sublist
    rw [hqueue]
    exact (List.Sublist.refl _).append (List.sublist_append_right _ _)
  · intro t ht
    rw [settled_settleAll, List.mem_append] at ht
    rcases ht with ht | ht
    · exact h.settled_lt t ht
    · obtain ⟨x, hx, rfl⟩ := hmem ht
      exact h.ticket_lt (h.mem_accepted_of_queue (hpre x hx))
  · rw [settled_settleAll, List.nodup_append]
    refine ⟨h.settled_nodup, hos ▸ hpre_nodup, ?_⟩
    rintro t ht _ ht' rfl
    obtain ⟨x, hx, rfl⟩ := hmem ht'
    exact h.queue_unsettled x (hpre x hx) ht
  · intro x hx
    rw [settled_settleAll, List.mem_append, not_or]
    refine ⟨h.queue_unsettled x (hrest x hx), fun ht => ?_⟩
    obtain ⟨y, hy, hyx⟩ := hmem ht
    exact hpre_rest _ (List.mem_map_of_mem hy) _ (List.mem_map_of_mem hx) hyx
  · exact h.keys
  · rw [sent_settleAll]
    exact h.owner_sent
  · intro e he
    rw [settled_settleAll, List.mem_append, not_or]
    obtain ⟨x, hx, hxe⟩ := h.owner_sent e he
    exact ⟨h.owner_unsettled e he, hxe ▸ hsent x hx⟩
  · exact h.owner_inj
  · rw [sent_settleAll]
    exact h.timer_sent
  · intro t ht
    rw [settled_settleAll, List.mem_append, not_or]
    exact ⟨h.timer_unsettled t ht, hsent _ (h.timer_sent t ht)⟩
  · exact h.timer_owner
  · exact h.order_settleAll os

/-- **A sent execution is settled**, its entry and its timer gone. The entry is found by
`msgId`: no other entry is the same promise's. -/
theorem retire (h : Ledger s) {item : QueuedExecution} (hsent : item ∈ s.sent)
    (hunsettled : item.ticket ∉ s.settled) {msgId : String}
    (howner : ∀ e ∈ s.pending, e.2.ticket = item.ticket → e.1 = msgId) (outcome : Outcome) :
    Ledger (s.retire msgId item.ticket outcome) := by
  have hpending : ∀ e ∈ (s.retire msgId item.ticket outcome).pending,
      e ∈ s.pending ∧ e.2.ticket ≠ item.ticket := by
    intro e he
    obtain ⟨he, hid⟩ := InsertionMap.mem_delete.mp he
    exact ⟨he, fun heq => hid (howner e he heq)⟩
  have htimers : ∀ t ∈ (s.retire msgId item.ticket outcome).timers,
      t ∈ s.timers ∧ t.item.ticket ≠ item.ticket := by
    intro t ht
    simpa [State.retire, State.clearTimer, State.settle] using ht
  have hkept : ∀ {t : Nat}, t ∉ s.settled → t ≠ item.ticket →
      t ∉ (s.retire msgId item.ticket outcome).settled := by
    intro t ht hne
    simp [ht, hne]
  constructor
  · rw [accepted_retire]
    exact h.tickets
  · rw [sent_retire, accepted_retire]
    exact h.sublist
  · intro t ht
    rw [settled_retire, List.mem_append, List.mem_singleton] at ht
    rcases ht with ht | rfl
    · exact h.settled_lt t ht
    · exact h.ticket_lt (h.mem_accepted_of_sent hsent)
  · rw [settled_retire, List.nodup_append]
    refine ⟨h.settled_nodup, by simp, ?_⟩
    rintro t ht _ ht' rfl
    exact hunsettled (List.mem_singleton.mp ht' ▸ ht)
  · exact fun x hx => hkept (h.queue_unsettled x hx) (h.queue_ne_sent hx hsent)
  · exact h.keys.delete msgId
  · intro e he
    rw [sent_retire]
    exact h.owner_sent e (hpending e he).1
  · exact fun e he => hkept (h.owner_unsettled e (hpending e he).1) (hpending e he).2
  · exact fun e he e' he' => h.owner_inj e (hpending e he).1 e' (hpending e' he').1
  · intro t ht
    rw [sent_retire]
    exact h.timer_sent t (htimers t ht).1
  · exact fun t ht => hkept (h.timer_unsettled t (htimers t ht).1) (htimers t ht).2
  · exact fun t ht e he => h.timer_owner t (htimers t ht).1 e (hpending e he).1
  · exact h.order_settleAll [(item.ticket, outcome)]

/-- **The front of the queue is sent.** -/
theorem start (h : Ledger s) {item : QueuedExecution} {rest : List QueuedExecution}
    (hqueue : s.queue = item :: rest) (msgId : String) :
    Ledger (startPending { s with queue := rest } item msgId) := by
  have hitem : item ∈ s.queue := by simp [hqueue]
  have hunsettled := h.queue_unsettled item hitem
  have hfresh : ∀ x ∈ s.sent, x.ticket ≠ item.ticket := fun x hx heq =>
    h.queue_ne_sent hitem hx heq.symm
  have hpending : ∀ e ∈ (startPending { s with queue := rest } item msgId).pending,
      (e.1 = msgId ∧ e.2.ticket = item.ticket) ∨
        (e ∈ s.pending ∧ e.1 ≠ msgId ∧ e.2.ticket ≠ item.ticket) := by
    intro e he
    rcases InsertionMap.mem_set.mp he with rfl | ⟨he, hid⟩
    · exact .inl ⟨rfl, rfl⟩
    · obtain ⟨x, hx, hxe⟩ := h.owner_sent e he
      exact .inr ⟨he, hid, hxe ▸ hfresh x hx⟩
  have htimers : ∀ t ∈ (startPending { s with queue := rest } item msgId).timers,
      t = { item, msgId } ∨ (t ∈ s.timers ∧ t.item.ticket ≠ item.ticket) := by
    intro t ht
    have ht' : t ∈ s.timers ∨ t = { item, msgId } := by
      unfold startPending at ht
      dsimp only at ht
      split at ht
      · simpa using ht
      · exact .inl ht
    rcases ht' with ht | rfl
    · exact .inr ⟨ht, hfresh _ (h.timer_sent t ht)⟩
    · exact .inl rfl
  constructor
  · rw [accepted_startPending]
    exact h.tickets
  · rw [sent_startPending, accepted_startPending, List.append_assoc]
    have hsub := h.sublist
    rw [hqueue] at hsub
    exact hsub
  · rw [settled_startPending]
    exact h.settled_lt
  · rw [settled_startPending]
    exact h.settled_nodup
  · intro x hx
    rw [settled_startPending]
    exact h.queue_unsettled x (hqueue ▸ List.mem_cons_of_mem _ hx)
  · exact h.keys.set _ _
  · intro e he
    rw [sent_startPending]
    rcases hpending e he with ⟨-, ht⟩ | ⟨he, -, -⟩
    · exact ⟨item, by simp, ht.symm⟩
    · obtain ⟨x, hx, hxe⟩ := h.owner_sent e he
      exact ⟨x, List.mem_append_left _ hx, hxe⟩
  · intro e he
    rw [settled_startPending]
    rcases hpending e he with ⟨-, ht⟩ | ⟨he, -, -⟩
    · rw [ht]
      exact hunsettled
    · exact h.owner_unsettled e he
  · intro e he e' he' heq
    rcases hpending e he with ⟨hid, ht⟩ | ⟨he, hid, ht⟩ <;>
      rcases hpending e' he' with ⟨hid', ht'⟩ | ⟨he', hid', ht'⟩
    · rw [hid, hid']
    · exact absurd (heq.symm.trans ht) ht'
    · exact absurd (heq.trans ht') ht
    · exact h.owner_inj e he e' he' heq
  · intro t ht
    rw [sent_startPending]
    rcases htimers t ht with rfl | ⟨ht, -⟩
    · simp
    · exact List.mem_append_left _ (h.timer_sent t ht)
  · intro t ht
    rw [settled_startPending]
    rcases htimers t ht with rfl | ⟨ht, -⟩
    · exact hunsettled
    · exact h.timer_unsettled t ht
  · intro t ht e he heq
    rcases htimers t ht with rfl | ⟨ht, hne⟩ <;> rcases hpending e he with ⟨hid, hte⟩ | ⟨he, hid, hte⟩
    · exact hid
    · exact absurd heq hte
    · exact absurd (heq.symm.trans hte) hne
    · exact h.timer_owner t ht e he heq
  · refine List.pairwise_append.mpr ⟨h.order, by simp, ?_⟩
    intro a ha b hb ticket hsettled x hx
    rw [List.mem_singleton.mp hb] at hx
    obtain rfl : item = x := by simpa [Action.sent?] using hx
    rintro rfl
    exact hunsettled (List.mem_filterMap.mpr ⟨a, ha, hsettled⟩)

end Ledger

/-! ## What a callback is made of -/

variable {cfg : Config}

/-- The promises of the executions `failed`, as `processNext` rejects them. -/
def settlements (failed : List (QueuedExecution × Outcome)) : List (Nat × Outcome) :=
  failed.map fun f => (f.1.ticket, f.2)

theorem settlements_fst (failed : List (QueuedExecution × Outcome)) :
    (settlements failed).map Prod.fst = (failed.map Prod.fst).map QueuedExecution.ticket := by
  simp [settlements]

/-- What `processNext` makes of a state with queue `queue`: the executions at its front
whose sends fail are rejected, and the first one whose send succeeds, if any, is sent. -/
inductive Processed (cfg : Config) (queue : List QueuedExecution) (s : State) : State → Prop where
  | drained (failed : List (QueuedExecution × Outcome)) (sends : Nat)
      (hqueue : queue = failed.map Prod.fst) (hsends : s.sends ≤ sends) :
      Processed cfg queue s
        (State.settleAll { s with queue := [], executing := false, sends } (settlements failed))
  | sent (failed : List (QueuedExecution × Outcome)) (n : Nat) (item : QueuedExecution)
      (rest : List QueuedExecution) (msgId : String)
      (hqueue : queue = failed.map Prod.fst ++ item :: rest) (hsends : s.sends ≤ n)
      (hsend : cfg.addon n item = .returned msgId) (hid : msgId ≠ "") :
      Processed cfg queue s
        (startPending (State.settleAll { s with queue := rest, executing := true, sends := n + 1 }
          (settlements failed)) item msgId)

/-- A failed send joins the rejected executions in front of the rest. -/
theorem Processed.cons {s t : State} {item : QueuedExecution} {rest q : List QueuedExecution}
    {executing : Bool} {outcome : Outcome}
    (h : Processed cfg rest
      (State.settle { s with queue := q, executing, sends := s.sends + 1 } item.ticket outcome) t) :
    Processed cfg (item :: rest) s t := by
  have hlog : ∀ failed, (s.log ++ [Action.settled item.ticket outcome]) ++
      (settlements failed).map (fun o => Action.settled o.1 o.2) =
      s.log ++ (settlements ((item, outcome) :: failed)).map fun o => Action.settled o.1 o.2 := by
    simp [settlements]
  cases h with
  | drained failed sends hqueue hsends =>
    have : Processed cfg (item :: rest) s _ :=
      .drained ((item, outcome) :: failed) sends (by simp [hqueue]) (Nat.le_of_succ_le hsends)
    simpa only [State.settleAll, State.settle, hlog] using this
  | sent failed n x post msgId hqueue hsends hsend hid =>
    have : Processed cfg (item :: rest) s _ :=
      .sent ((item, outcome) :: failed) n x post msgId (by simp [hqueue])
        (Nat.le_of_succ_le hsends) hsend hid
    simpa only [State.settleAll, State.settle, hlog] using this

/-- **`processNext`, once and for all.** -/
theorem processQueue_processed (queue : List QueuedExecution) (s : State) :
    Processed cfg queue s (processQueue cfg queue s) := by
  induction queue generalizing s with
  | nil =>
    have : Processed cfg [] s _ := .drained [] s.sends rfl (Nat.le_refl _)
    simpa [processQueue, State.settleAll, settlements] using this
  | cons item rest ih =>
    cases hsend : cfg.addon s.sends item with
    | threw error =>
      simp only [processQueue, hsend]
      exact (ih _).cons
    | returned msgId =>
      simp only [processQueue, hsend]
      split
      · exact (ih _).cons
      · next hid =>
        have : Processed cfg (item :: rest) s _ :=
          .sent [] s.sends item rest msgId rfl (Nat.le_refl _) hsend hid
        simpa [State.settleAll, settlements] using this

/-- `s'` is `s` with one of its pending executions finished: what is queued may be aborted
first, and `processNext` runs last. -/
inductive Finishes (cfg : Config) (s : State) : State → Prop where
  | intro (s₁ : State) (msgId : String) (p p' : PendingExecution) (abort : Bool)
      (result : ExecutionResult) (hquiet : Quiet s s₁) (hmem : (msgId, p) ∈ s₁.pending)
      (hticket : p'.ticket = p.ticket) :
      Finishes cfg s (finish cfg (abortQueuedIf s₁ abort) msgId p' result)

theorem Finishes.of_quiet {s s₁ s' : State} (hq : Quiet s s₁) (h : Finishes cfg s₁ s') :
    Finishes cfg s s' := by
  cases h with
  | intro s₂ msgId p p' abort result hquiet hmem hticket =>
    exact .intro s₂ msgId p p' abort result (hq.trans hquiet) hmem hticket

theorem quiet_clearIdleWait (s : State) (handle : Nat) : Quiet s (s.clearIdleWait handle) :=
  { Quiet.refl s with }

theorem quiet_armIdleWait (s : State) (ticket : Nat) (f : FinishNow) :
    Quiet s (s.armIdleWait ticket f) :=
  { Quiet.refl s with }

/-- Writing an execution's entry back, still its own, changes nothing else. -/
theorem quiet_setPending {s : State} (hunique : s.pending.Unique) {msgId : String}
    {p p' : PendingExecution} (hmem : (msgId, p) ∈ s.pending) (hp : p'.ticket = p.ticket) :
    Quiet s { s with pending := s.pending.set msgId p' } := by
  refine { Quiet.refl s with
    keys := fun hk => hk.set msgId p'
    owners := ?_
    owners' := ?_ }
  · intro e he
    rcases InsertionMap.mem_set.mp he with rfl | ⟨he, -⟩
    · exact ⟨(msgId, p), hmem, rfl, hp.symm⟩
    · exact ⟨e, he, rfl, rfl⟩
  · intro e he
    by_cases hid : e.1 = msgId
    · refine ⟨(msgId, p'), InsertionMap.mem_set.mpr (.inl rfl), hid, ?_⟩
      have hget := InsertionMap.get_of_mem hunique hmem
      have hget' := InsertionMap.get_of_mem hunique (show (msgId, e.2) ∈ s.pending from hid ▸ he)
      rw [Option.some.inj (hget'.symm.trans hget), hp]
    · exact ⟨e, InsertionMap.mem_set.mpr (.inr ⟨he, hid⟩), rfl, rfl⟩

theorem quiet_clearTimer (s : State) (ticket : Nat) : Quiet s (s.clearTimer ticket) :=
  { Quiet.refl s with timers := List.filter_subset_self _ }

/-- The `switch` of `handleMessage`: the execution goes on, or it is finished. -/
theorem dispatchMessage_cases {s : State} (hunique : s.pending.Unique) (message : JupyterMessage)
    {p : PendingExecution} (hmem : (message.parentMsgId, p) ∈ s.pending) :
    Quiet s (dispatchMessage cfg s message p) ∨ Finishes cfg s (dispatchMessage cfg s message p) := by
  unfold dispatchMessage
  dsimp only
  split
  · -- input_request
    split
    · next timer _ =>
      exact .inl ((quiet_clearTimer s timer).trans
        (quiet_setPending (s := s.clearTimer timer) hunique hmem rfl))
    · exact .inl (.refl s)
  iterate 5 exact .inl (quiet_setPending hunique hmem rfl)
  · -- status
    split
    · split
      · next f _ =>
        exact .inr (.intro _ _ p _ _ _ (quiet_clearIdleWait s f.handle) hmem rfl)
      · exact .inl (quiet_setPending hunique hmem rfl)
    · exact .inl (.refl s)
  · -- error
    exact .inr (.intro s _ p _ _ _ (.refl s) hmem rfl)
  · -- execute_reply
    split
    · exact .inr (.intro _ _ p _ _ _ { Quiet.refl s with } hmem rfl)
    · have hset : Quiet s { s with
          pending := s.pending.set message.parentMsgId { p with
            finishWhenIdle := some { handle := s.nextHandle, reply := message }
            restartIdleWait := some { handle := s.nextHandle, reply := message } } } :=
        quiet_setPending hunique hmem rfl
      exact .inl { hset with }
  · exact .inl (.refl s)

theorem handleMessage_cases {s : State} (hunique : s.pending.Unique) (message : JupyterMessage) :
    Quiet s (handleMessage cfg s message) ∨ Finishes cfg s (handleMessage cfg s message) := by
  unfold handleMessage
  split
  · exact .inl (.refl s)
  · next p hp =>
    have hmem := InsertionMap.mem_of_get hp
    cases p.restartIdleWait with
    | none => exact dispatchMessage_cases hunique message hmem
    | some f =>
      have hquiet := quiet_armIdleWait s p.ticket f
      have hcases : Quiet (s.armIdleWait p.ticket f)
            (dispatchMessage cfg (s.armIdleWait p.ticket f) message p) ∨
          Finishes cfg (s.armIdleWait p.ticket f)
            (dispatchMessage cfg (s.armIdleWait p.ticket f) message p) :=
        dispatchMessage_cases (s := s.armIdleWait p.ticket f) hunique message hmem
      rcases hcases with h | h
      · exact .inl (hquiet.trans h)
      · exact .inr (h.of_quiet hquiet)

theorem idleWaitExpired_cases (s : State) (w : IdleWait) :
    Quiet s (idleWaitExpired cfg s w) ∨ Finishes cfg s (idleWaitExpired cfg s w) := by
  unfold idleWaitExpired
  dsimp only
  have hquiet := quiet_clearIdleWait s w.finishNow.handle
  split
  · next p hp =>
    split
    · exact .inr (.intro _ _ p p _ _ (hquiet.trans (quiet_clearIdleWait _ _))
        (InsertionMap.mem_of_get hp) rfl)
    · exact .inl hquiet
  · exact .inl hquiet

/-- What a callback does: a message, or the end of a wait, changes nothing else or finishes a
pending execution. -/
inductive Callback (cfg : Config) (s : State) : Event → State → Prop where
  | execute (code : String) (options : ExecutionOptions) :
      Callback cfg s (.execute code options) (execute cfg s code options)
  | clear : Callback cfg s .clear (clear s)
  | quiet {e : Event} {s' : State} (h : Quiet s s') : Callback cfg s e s'
  | finishes {e : Event} {s' : State} (h : Finishes cfg s s') : Callback cfg s e s'
  | timeout (ticket : Nat) (t : Timer) (h : t ∈ s.timers) :
      Callback cfg s (.timeout ticket) (timeout cfg s t)
  | interruptCompleted (ticket : Nat) (h : ticket ∈ s.interrupted) :
      Callback cfg s (.interruptCompleted ticket) (interruptCompleted cfg s ticket)

theorem step_callback {s : State} (hunique : s.pending.Unique) (e : Event) :
    Callback cfg s e (step cfg s e) := by
  unfold step
  cases e with
  | execute code options => exact .execute code options
  | clear => exact .clear
  | message message => exact (handleMessage_cases hunique message).elim .quiet .finishes
  | timeout ticket =>
    dsimp only
    split
    · next t ht => exact .timeout ticket t (List.mem_of_find?_eq_some ht)
    · exact .quiet (.refl s)
  | interruptCompleted ticket =>
    dsimp only
    split
    · next hmem => exact .interruptCompleted ticket hmem
    · exact .quiet (.refl s)
  | idleWaitExpired handle =>
    dsimp only
    split
    · next w _ => exact (idleWaitExpired_cases s w).elim .quiet .finishes
    · exact .quiet (.refl s)

/-! ## Every callback keeps the ledger -/

namespace Ledger

variable {s : State}

/-- `executing`, `interrupted` and the counter of sends are not in the ledger. -/
theorem with_flags (h : Ledger s) (executing : Bool) (interrupted : List Nat) (sends : Nat) :
    Ledger { s with executing, interrupted, sends } :=
  { h with }

theorem processNext (h : Ledger s) : Ledger (processNext cfg s) := by
  unfold ExecutionQueue.processNext
  have hprocessed := @processQueue_processed cfg s.queue s
  generalize processQueue cfg s.queue s = s' at hprocessed
  cases hprocessed with
  | drained failed sends hqueue _ =>
    have hfailed : s.queue = failed.map Prod.fst ++ [] := by rw [hqueue, List.append_nil]
    have hdrop := h.drop hfailed (settlements failed) (settlements_fst failed)
    exact hdrop.with_flags false s.interrupted sends
  | sent failed n item rest msgId hqueue _ _ _ =>
    have hdrop := h.drop hqueue (settlements failed) (settlements_fst failed)
    exact (hdrop.with_flags true s.interrupted (n + 1)).start rfl msgId

theorem abortQueued (h : Ledger s) : Ledger (abortQueued s) := by
  refine h.drop (List.append_nil s.queue).symm _ ?_
  simp

theorem abortQueuedIf (h : Ledger s) (abort : Bool) : Ledger (abortQueuedIf s abort) := by
  cases abort with
  | false => exact h
  | true => exact h.abortQueued

/-- Settling a pending execution through its own entry. -/
theorem retire_pending (h : Ledger s) {msgId : String} {p : PendingExecution}
    (hmem : (msgId, p) ∈ s.pending) (outcome : Outcome) :
    Ledger (s.retire msgId p.ticket outcome) := by
  obtain ⟨item, hitem, ht⟩ := h.owner_sent _ hmem
  rw [← show item.ticket = p.ticket from ht]
  refine h.retire hitem (ht ▸ h.owner_unsettled _ hmem) (fun e he heq => ?_) outcome
  exact h.owner_inj e he _ hmem (heq.trans ht)

theorem pending_abortQueuedIf (s : State) (abort : Bool) :
    (ExecutionQueue.abortQueuedIf s abort).pending = s.pending := by
  cases abort <;> rfl

theorem finishes (h : Ledger s) {s' : State} (hf : Finishes cfg s s') : Ledger s' := by
  cases hf with
  | intro s₁ msgId p p' abort result hquiet hmem hticket =>
    unfold finish
    rw [hticket]
    have h₁ := (h.quiet hquiet).abortQueuedIf abort
    exact (h₁.retire_pending ((pending_abortQueuedIf s₁ abort).symm ▸ hmem) _).processNext

/-- The loop of `clear` over the pending executions. -/
theorem clearPending (h : Ledger s) (es : List (String × PendingExecution))
    (hsub : es ⊆ s.pending) (hnodup : (es.map Prod.fst).Nodup) :
    Ledger (es.foldl (fun s e => s.retire e.1 e.2.ticket (.rejected CLEARED_MESSAGE)) s) := by
  induction es generalizing s with
  | nil => exact h
  | cons e es ih =>
    rw [List.map_cons, List.nodup_cons] at hnodup
    refine ih (h.retire_pending (hsub List.mem_cons_self) _) (fun e' he' => ?_) hnodup.2
    refine InsertionMap.mem_delete.mpr ⟨hsub (List.mem_cons_of_mem _ he'), fun hid => ?_⟩
    exact hnodup.1 (hid ▸ List.mem_map_of_mem he')

theorem clear (h : Ledger s) : Ledger (clear s) := by
  have hdrop := h.drop (List.append_nil s.queue).symm
    (s.queue.map fun item => (item.ticket, Outcome.rejected CLEARED_MESSAGE)) (by simp)
  exact (hdrop.with_flags false s.interrupted s.sends).clearPending s.pending
    (fun _ he => he) h.keys

theorem timeout (h : Ledger s) {t : Timer} (ht : t ∈ s.timers) : Ledger (timeout cfg s t) :=
  (h.retire (h.timer_sent t ht) (h.timer_unsettled t ht) (fun e he heq => h.timer_owner t ht e he heq)
    _).with_flags s.executing (s.interrupted ++ [t.item.ticket]) s.sends

/-- Noting an action that neither sends nor settles keeps the order of the log. -/
theorem order_note (h : Ledger s) {a : Action} (ha : a.sent? = none) :
    (s.log ++ [a]).Pairwise SentBeforeSettled := by
  refine List.pairwise_append.mpr ⟨h.order, by simp, ?_⟩
  intro b _ c hc ticket _ x hx
  rw [List.mem_singleton.mp hc, ha] at hx
  cases hx

/-- An accepted execution joins the queue. -/
theorem accept (h : Ledger s) (code : String) (options : ExecutionOptions) :
    Ledger { s with
      queue := s.queue ++ [{ code, options, ticket := s.nextTicket }]
      nextTicket := s.nextTicket + 1
      log := s.log ++ [.accepted { code, options, ticket := s.nextTicket }] } := by
  set item : QueuedExecution := { code, options, ticket := s.nextTicket }
  set s' : State := { s with
    queue := s.queue ++ [item], nextTicket := s.nextTicket + 1, log := s.log ++ [.accepted item] }
  have haccepted : s'.accepted = s.accepted ++ [item] := List.filterMap_append
  have hsent : s'.sent = s.sent := List.filterMap_append.trans (List.append_nil _)
  have hsettled : s'.settled = s.settled := List.filterMap_append.trans (List.append_nil _)
  have hnew : item.ticket ∉ s.settled := fun ht => absurd (h.settled_lt _ ht) (Nat.lt_irrefl _)
  constructor
  · rw [haccepted, List.map_append, h.tickets]
    exact List.range_succ.symm
  · rw [hsent, haccepted]
    exact (List.append_assoc _ _ _).symm ▸ h.sublist.append (List.Sublist.refl [item])
  · intro t ht
    rw [hsettled] at ht
    exact Nat.lt_succ_of_lt (h.settled_lt t ht)
  · rw [hsettled]
    exact h.settled_nodup
  · intro x hx
    rw [hsettled]
    rcases List.mem_append.mp hx with hx | hx
    · exact h.queue_unsettled x hx
    · rw [List.mem_singleton.mp hx]
      exact hnew
  · exact h.keys
  · rw [hsent]
    exact h.owner_sent
  · rw [hsettled]
    exact h.owner_unsettled
  · exact h.owner_inj
  · rw [hsent]
    exact h.timer_sent
  · rw [hsettled]
    exact h.timer_unsettled
  · exact h.timer_owner
  · exact h.order_note rfl

/-- A refused call leaves everything but the log alone. -/
theorem refuse (h : Ledger s) (error : String) :
    Ledger { s with log := s.log ++ [.refused error] } := by
  set s' : State := { s with log := s.log ++ [.refused error] }
  have haccepted : s'.accepted = s.accepted := List.filterMap_append.trans (List.append_nil _)
  have hsent : s'.sent = s.sent := List.filterMap_append.trans (List.append_nil _)
  have hsettled : s'.settled = s.settled := List.filterMap_append.trans (List.append_nil _)
  exact {
    tickets := haccepted ▸ h.tickets
    sublist := by rw [hsent, haccepted]; exact h.sublist
    settled_lt := hsettled ▸ h.settled_lt
    settled_nodup := hsettled ▸ h.settled_nodup
    queue_unsettled := hsettled ▸ h.queue_unsettled
    keys := h.keys
    owner_sent := hsent ▸ h.owner_sent
    owner_unsettled := hsettled ▸ h.owner_unsettled
    owner_inj := h.owner_inj
    timer_sent := hsent ▸ h.timer_sent
    timer_unsettled := hsettled ▸ h.timer_unsettled
    timer_owner := h.timer_owner
    order := h.order_note rfl }

theorem execute (h : Ledger s) (code : String) (options : ExecutionOptions) :
    Ledger (execute cfg s code options) := by
  unfold ExecutionQueue.execute
  split
  · exact h.refuse _
  · dsimp only
    split
    · exact h.accept code options
    · exact (h.accept code options).processNext

/-- **Every callback keeps the ledger.** -/
theorem step (h : Ledger s) (e : Event) : Ledger (step cfg s e) := by
  have hcallback := @step_callback cfg s h.keys e
  generalize ExecutionQueue.step cfg s e = s' at hcallback ⊢
  cases hcallback with
  | execute code options => exact h.execute code options
  | clear => exact h.clear
  | quiet hquiet => exact h.quiet hquiet
  | finishes hfinishes => exact h.finishes hfinishes
  | timeout ticket t ht => exact h.timeout ht
  | interruptCompleted ticket =>
    exact (h.with_flags s.executing (s.interrupted.erase ticket) s.sends).processNext

end Ledger

end Jovian.ExecutionQueue
