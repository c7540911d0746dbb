import Jovian.Client.SessionCalls
import Jovian.Lib.Log

/-!
# Jovian — the books of a session's calls

What the calls, the queue, the pending requests and the settled promises have to do with each other
in every state, whatever the connection does.

* **`Books`** — a call that is not settled waits for its `readyPromise`, or its promise is the
  queue's, or it has its entry in `pendingRequests`.
* **`Grows`** — what is settled stays so, and what is settled newly is `own`.
* **`clear_settles`** — `clear` leaves nothing that was sent.
-/

namespace Jovian.SessionCalls

open ExecutionQueue (Action Content JupyterMessage ExecutionOptions Outcome FreshIds Kept Resolves)

variable {cfg : Config}

/-- Its promise is not the queue's. -/
def Phase.Direct : Phase → Prop
  | .asked _ _ | .thrown => True
  | .awaiting _ | .queued _ _ => False

namespace Calls

variable {s s' : Calls} {own : Nat → Settlement → Prop}

/-! ## What was settled -/

/-- The call's promise was settled, and not by the queue. -/
def Logged (s : Calls) (i : Nat) : Prop := ∃ how, (i, how) ∈ s.log

theorem mem_settlements {i : Nat} {how : Settlement} :
    how ∈ s.settlements i ↔ (i, how) ∈ s.log ∨
      ∃ kind ws ticket outcome, s.all[i]? = some ⟨kind, .queued ws ticket⟩ ∧
        .settled ticket outcome ∈ s.queue.log ∧ Settlement.ofOutcome outcome = how := by
  have hlog : how ∈ (s.log.filter (·.1 = i)).map Prod.snd ↔ (i, how) ∈ s.log := by
    constructor
    · intro h
      obtain ⟨⟨j, how'⟩, hfilter, rfl⟩ := List.mem_map.mp h
      obtain ⟨hmem, hj⟩ := List.mem_filter.mp hfilter
      rw [← show j = i from of_decide_eq_true hj]
      exact hmem
    · exact fun h => List.mem_map.mpr ⟨_, List.mem_filter.mpr ⟨h, decide_eq_true rfl⟩, rfl⟩
  rw [settlements, List.mem_append, hlog]
  refine or_congr_right ?_
  cases hcall : s.all[i]? with
  | none => simp
  | some call =>
    obtain ⟨kind, phase⟩ := call
    cases phase <;> simp [ExecutionQueue.mem_settlementsOf]

theorem all_settle (s : Calls) (i : Nat) (how : Settlement) : (s.settle i how).all = s.all := by
  unfold settle
  split <;> rfl

theorem queue_settle (s : Calls) (i : Nat) (how : Settlement) : (s.settle i how).queue = s.queue := by
  unfold settle
  split <;> rfl

theorem pendingRequests_settle (s : Calls) (i : Nat) (how : Settlement) :
    (s.settle i how).pendingRequests = s.pendingRequests := by
  unfold settle
  split <;> rfl

theorem requests_settle (s : Calls) (i : Nat) (how : Settlement) :
    (s.settle i how).requests = s.requests := by
  unfold settle
  split <;> rfl

theorem mem_log_settle {i : Nat} {how : Settlement} {x : Nat × Settlement} :
    x ∈ (s.settle i how).log ↔ x ∈ s.log ∨ x = (i, how) ∧ ¬ s.Logged i := by
  unfold settle
  split
  · next hany =>
    obtain ⟨⟨j, how'⟩, hmem, hj⟩ := List.any_eq_true.mp hany
    obtain rfl : j = i := of_decide_eq_true hj
    exact ⟨.inl, fun h => h.resolve_right fun h => h.2 ⟨how', hmem⟩⟩
  · next hany =>
    have hnew : ¬ s.Logged i := fun ⟨how', hmem⟩ =>
      hany (List.any_eq_true.mpr ⟨_, hmem, decide_eq_true rfl⟩)
    simp [hnew]

theorem logged_settle {i j : Nat} {how : Settlement} :
    (s.settle i how).Logged j ↔ s.Logged j ∨ j = i := by
  constructor
  · rintro ⟨how', h⟩
    rcases mem_log_settle.mp h with h | ⟨heq, -⟩
    · exact .inl ⟨how', h⟩
    · exact .inr (Prod.mk.inj heq).1
  · rintro (⟨how', h⟩ | rfl)
    · exact ⟨how', mem_log_settle.mpr (.inl h)⟩
    · by_cases hlogged : s.Logged j
      · obtain ⟨how', h⟩ := hlogged
        exact ⟨how', mem_log_settle.mpr (.inl h)⟩
      · exact ⟨how, mem_log_settle.mpr (.inr ⟨rfl, hlogged⟩)⟩

theorem nodup_settle (h : (s.log.map Prod.fst).Nodup) (i : Nat) (how : Settlement) :
    ((s.settle i how).log.map Prod.fst).Nodup := by
  unfold settle
  split
  · exact h
  · next hany =>
    rw [List.map_append, List.nodup_append]
    refine ⟨h, by simp, ?_⟩
    rintro j hj _ hi rfl
    obtain ⟨x, hx, rfl⟩ := List.mem_map.mp hj
    refine hany (List.any_eq_true.mpr ⟨x, hx, decide_eq_true ?_⟩)
    simpa using hi

theorem getElem?_setPhase {i j : Nat} {phase : Phase} :
    (s.setPhase i phase).all[j]? =
      if i = j then (s.all[j]?).map fun call => { call with phase } else s.all[j]? := by
  unfold setPhase
  rw [List.getElem?_modify]
  split
  · rfl
  · exact Option.map_id'

theorem setPhase_self {i : Nat} {call : Call} (hcall : s.all[i]? = some call) (phase : Phase) :
    (s.setPhase i phase).all[i]? = some { call with phase } := by
  rw [getElem?_setPhase, if_pos rfl, hcall]
  rfl

theorem setPhase_ne {i j : Nat} (hne : j ≠ i) (phase : Phase) :
    (s.setPhase i phase).all[j]? = s.all[j]? := by
  rw [getElem?_setPhase, if_neg hne.symm]

/-- A call is the one that goes on, or it is where it was. -/
theorem setPhase_cases {i j : Nat} {call call' : Call} {phase : Phase} (hcall : s.all[i]? = some call)
    (hj : (s.setPhase i phase).all[j]? = some call') :
    j = i ∧ call' = { call with phase } ∨ j ≠ i ∧ s.all[j]? = some call' := by
  by_cases heq : j = i
  · subst heq
    rw [setPhase_self hcall] at hj
    exact .inl ⟨rfl, (Option.some.inj hj).symm⟩
  · rw [setPhase_ne heq] at hj
    exact .inr ⟨heq, hj⟩

/-! ## `Grows` -/

/-- What was settled stays, and what is settled newly is `own`. -/
structure Grows (own : Nat → Settlement → Prop) (s s' : Calls) : Prop where
  stays : ∀ i how, how ∈ s.settlements i → how ∈ s'.settlements i
  new : ∀ i how, how ∈ s'.settlements i → how ∈ s.settlements i ∨ own i how

namespace Grows

theorem refl (s : Calls) : Grows own s s :=
  ⟨fun _ _ h => h, fun _ _ h => .inl h⟩

theorem trans {s s' s'' : Calls} (h : Grows own s s') (h' : Grows own s' s'') : Grows own s s'' where
  stays i how hi := h'.stays i how (h.stays i how hi)
  new i how hi := by
    rcases h'.new i how hi with hi | hown
    · exact h.new i how hi
    · exact .inr hown

theorem mono {own' : Nat → Settlement → Prop} (h : Grows own s s') (hown : ∀ i how, own i how → own' i how) :
    Grows own' s s' :=
  ⟨h.stays, fun i how hi => (h.new i how hi).imp_right (hown i how)⟩

theorem settle (s : Calls) {i : Nat} {how : Settlement} (hown : own i how) :
    Grows own s (s.settle i how) where
  stays j how' h := by
    rw [mem_settlements] at h ⊢
    rw [all_settle, queue_settle]
    exact h.imp_left fun h => mem_log_settle.mpr (.inl h)
  new j how' h := by
    rw [mem_settlements, all_settle, queue_settle] at h
    rw [mem_settlements]
    rcases h with h | h
    · rcases mem_log_settle.mp h with h | ⟨heq, -⟩
      · exact .inl (.inl h)
      · obtain ⟨rfl, rfl⟩ := Prod.mk.inj heq
        exact .inr hown
    · exact .inl (.inr h)

/-- A call that goes on from its `await`. -/
theorem setPhase {i p : Nat} {kind : Kind} (hcall : s.all[i]? = some ⟨kind, .awaiting p⟩) (phase : Phase)
    (hown : ∀ ws ticket, phase = .queued ws ticket →
      ∀ outcome, .settled ticket outcome ∈ s.queue.log → own i (.ofOutcome outcome)) :
    Grows own s (s.setPhase i phase) where
  stays j how h := by
    rw [mem_settlements] at h ⊢
    refine h.imp_right ?_
    rintro ⟨kind', ws, ticket, outcome, hj, hsettled, rfl⟩
    have hne : j ≠ i := by
      rintro rfl
      cases hcall.symm.trans hj
    exact ⟨kind', ws, ticket, outcome, (setPhase_ne hne _).trans hj, hsettled, rfl⟩
  new j how h := by
    rw [mem_settlements] at h ⊢
    rcases h with h | ⟨kind', ws, ticket, outcome, hj, hsettled, rfl⟩
    · exact .inl (.inl h)
    · rcases setPhase_cases hcall hj with ⟨rfl, heq⟩ | ⟨-, hj⟩
      · obtain ⟨-, rfl⟩ := Call.mk.inj heq
        exact .inr (hown ws ticket rfl outcome hsettled)
      · exact .inl (.inr ⟨kind', ws, ticket, outcome, hj, hsettled, rfl⟩)

/-- The queue goes on. -/
theorem queue {own' : Nat → ExecutionQueue.ExecutionResult → Prop} {queue : ExecutionQueue.State}
    (hlog : s.queue.log <+: queue.log) (hresolves : Resolves own' s.queue queue)
    (hrejected : ∀ i error, own i (.rejected error))
    (hown : ∀ i kind ws ticket result, s.all[i]? = some ⟨kind, .queued ws ticket⟩ → own' ticket result →
      own i (.executed result)) :
    Grows own s { s with queue } where
  stays i how h := by
    rw [mem_settlements] at h ⊢
    refine h.imp_right fun ⟨kind, ws, ticket, outcome, hcall, hsettled, heq⟩ => ?_
    exact ⟨kind, ws, ticket, outcome, hcall, hlog.subset hsettled, heq⟩
  new i how h := by
    rw [mem_settlements] at h ⊢
    rcases h with h | ⟨kind, ws, ticket, outcome, hcall, hsettled, rfl⟩
    · exact .inl (.inl h)
    · cases outcome with
      | rejected error => exact .inr (hrejected i error)
      | resolved result =>
        rcases hresolves ticket result hsettled with hold | hnew
        · exact .inl (.inr ⟨kind, ws, ticket, _, hcall, hold, rfl⟩)
        · exact .inr (hown i kind ws ticket result hcall hnew)

end Grows

/-! ## `Books` -/

/-- What the calls have to do with the queue, the pending requests and the settled promises. -/
structure Books (cfg : Config) (s : Calls) : Prop where
  kept : Kept cfg.queue s.queue
  nodup : (s.log.map Prod.fst).Nodup
  keys : s.pendingRequests.Unique
  logged : ∀ (i : Nat), s.Logged i → ∃ call, s.all[i]? = some call ∧ call.phase.Direct
  queued : ∀ (i : Nat) kind ws ticket, s.all[i]? = some ⟨kind, .queued ws ticket⟩ → ticket < s.queue.nextTicket
  thrown : ∀ (i : Nat) kind, s.all[i]? = some ⟨kind, .thrown⟩ → s.Logged i
  asked : ∀ (i : Nat) kind ws id, s.all[i]? = some ⟨kind, .asked ws id⟩ →
    s.Logged i ∨ ∃ p, (id, p) ∈ s.pendingRequests ∧ p.call = i
  issued : ∀ (i : Nat) kind ws id, s.all[i]? = some ⟨kind, .asked ws id⟩ → ∃ n < s.requests, cfg.requestId n = id
  entry : ∀ id p, (id, p) ∈ s.pendingRequests → ∃ msgType timeout ws,
    s.all[p.call]? = some ⟨.request msgType timeout, .asked ws id⟩ ∧ p.replyType = replyTypeOf msgType

theorem books_init : Books cfg {} where
  kept := ExecutionQueue.kept_init
  nodup := List.nodup_nil
  keys := List.nodup_nil
  logged _ h := absurd h.choose_spec List.not_mem_nil
  queued _ _ _ _ h := by cases h
  thrown _ _ h := by cases h
  asked _ _ _ _ h := by cases h
  issued _ _ _ _ h := by cases h
  entry _ _ h := absurd h List.not_mem_nil

namespace Books

theorem not_logged (h : Books cfg s) {i : Nat} {call : Call} (hcall : s.all[i]? = some call)
    (hphase : ¬ call.phase.Direct) : ¬ s.Logged i := by
  intro hlogged
  obtain ⟨call', hcall', hdirect⟩ := h.logged i hlogged
  obtain rfl := Option.some.inj (hcall.symm.trans hcall')
  exact hphase hdirect

/-- **None is settled twice.** -/
theorem once (h : Books cfg s) (i : Nat) : (s.settlements i).length ≤ 1 := by
  have hone : (s.log.filter (·.1 = i)).length ≤ 1 := by
    have hcount := List.nodup_iff_count_le_one.mp h.nodup i
    rw [List.count, List.countP_map, List.countP_eq_length_filter] at hcount
    exact hcount
  unfold settlements
  cases hcall : s.all[i]? with
  | none => simpa using hone
  | some call =>
    obtain ⟨kind, phase⟩ := call
    cases phase with
    | queued ws ticket =>
      have hnone : s.log.filter (·.1 = i) = [] := by
        rw [List.filter_eq_nil_iff]
        rintro ⟨j, how⟩ hmem hj
        obtain rfl : j = i := of_decide_eq_true hj
        exact h.not_logged hcall id ⟨how, hmem⟩
      simpa [hnone] using h.kept.ledger.settlementsOf_length ticket
    | _ => simpa using hone

/-- A call that awaits is not settled. -/
theorem awaiting (h : Books cfg s) {i p : Nat} {kind : Kind} (hcall : s.all[i]? = some ⟨kind, .awaiting p⟩) :
    s.settlements i = [] := by
  rw [List.eq_nil_iff_forall_not_mem]
  intro how hmem
  rcases mem_settlements.mp hmem with hmem | ⟨_, _, _, _, hqueued, -⟩
  · exact h.not_logged hcall id ⟨how, hmem⟩
  · cases hcall.symm.trans hqueued

/-- What is logged is settled. -/
theorem settled_of_logged {i : Nat} (h : s.Logged i) : s.settlements i ≠ [] := by
  obtain ⟨how, hmem⟩ := h
  exact List.ne_nil_of_mem (mem_settlements.mpr (.inl hmem))

theorem settle_direct (h : Books cfg s) {i : Nat} {call : Call} (hcall : s.all[i]? = some call)
    (hdirect : call.phase.Direct) (how : Settlement) : Books cfg (s.settle i how) where
  kept := by rw [queue_settle]; exact h.kept
  nodup := nodup_settle h.nodup i how
  keys := by rw [pendingRequests_settle]; exact h.keys
  logged j hj := by
    rw [all_settle]
    rcases logged_settle.mp hj with hj | rfl
    · exact h.logged j hj
    · exact ⟨call, hcall, hdirect⟩
  queued j kind ws ticket hj := by
    rw [queue_settle]
    exact h.queued j kind ws ticket (all_settle s i how ▸ hj)
  thrown j kind hj := logged_settle.mpr (.inl (h.thrown j kind (all_settle s i how ▸ hj)))
  asked j kind ws id hj := by
    rw [pendingRequests_settle]
    exact (h.asked j kind ws id (all_settle s i how ▸ hj)).imp_left fun hj => logged_settle.mpr (.inl hj)
  issued j kind ws id hj := by
    rw [requests_settle]
    exact h.issued j kind ws id (all_settle s i how ▸ hj)
  entry id p hp := by
    rw [all_settle]
    exact h.entry id p (pendingRequests_settle s i how ▸ hp)

/-- What is settled, or asked, is not where a call awaits. -/
theorem ne_awaiting (h : Books cfg s) {i p : Nat} {kind : Kind}
    (hcall : s.all[i]? = some ⟨kind, .awaiting p⟩) :
    (∀ j, s.Logged j → j ≠ i) ∧ ∀ id q, (id, q) ∈ s.pendingRequests → q.call ≠ i := by
  constructor
  · rintro j hj rfl
    exact h.not_logged hcall id hj
  · rintro id q hq rfl
    obtain ⟨_, _, _, hasked, -⟩ := h.entry id q hq
    cases hcall.symm.trans hasked

/-- A call throws after its `await`. -/
theorem throw (h : Books cfg s) {i p : Nat} {kind : Kind} (hcall : s.all[i]? = some ⟨kind, .awaiting p⟩)
    (error : String) : Books cfg (s.throw i error) := by
  obtain ⟨hlogged, hentry⟩ := h.ne_awaiting hcall
  unfold Calls.throw
  constructor
  · rw [queue_settle]
    exact h.kept
  · exact nodup_settle (s := s.setPhase i .thrown) h.nodup i _
  · rw [pendingRequests_settle]
    exact h.keys
  · intro j hj
    rw [all_settle]
    rcases logged_settle.mp hj with hj | rfl
    · rw [setPhase_ne (hlogged j hj)]
      exact h.logged j hj
    · exact ⟨_, setPhase_self hcall _, trivial⟩
  · intro j kind' ws ticket hj
    rw [all_settle] at hj
    rw [queue_settle]
    rcases setPhase_cases hcall hj with ⟨-, heq⟩ | ⟨-, hj⟩
    · cases heq
    · exact h.queued j kind' ws ticket hj
  · intro j kind' hj
    rw [all_settle] at hj
    rcases setPhase_cases hcall hj with ⟨rfl, -⟩ | ⟨-, hj⟩
    · exact logged_settle.mpr (.inr rfl)
    · exact logged_settle.mpr (.inl (h.thrown j kind' hj))
  · intro j kind' ws id hj
    rw [all_settle] at hj
    rw [pendingRequests_settle]
    rcases setPhase_cases hcall hj with ⟨-, heq⟩ | ⟨-, hj⟩
    · cases heq
    · exact (h.asked j kind' ws id hj).imp_left fun hj => logged_settle.mpr (.inl hj)
  · intro j kind' ws id hj
    rw [all_settle] at hj
    rw [requests_settle]
    rcases setPhase_cases hcall hj with ⟨-, heq⟩ | ⟨-, hj⟩
    · cases heq
    · exact h.issued j kind' ws id hj
  · intro id q hq
    rw [pendingRequests_settle] at hq
    rw [all_settle, setPhase_ne (hentry id q hq)]
    exact h.entry id q hq

/-- A call makes its entry. -/
theorem ask (h : Books cfg s) (hids : Function.Injective cfg.requestId) {i p : Nat} {msgType : String}
    {timeout : Option Int} (hcall : s.all[i]? = some ⟨.request msgType timeout, .awaiting p⟩) (ws : Nat)
    {entry : PendingRequest} (hentry : entry.call = i) (hreply : entry.replyType = replyTypeOf msgType) :
    Books cfg ({ s with
      requests := s.requests + 1
      pendingRequests := s.pendingRequests.set (cfg.requestId s.requests) entry }.setPhase i
        (.asked ws (cfg.requestId s.requests))) := by
  obtain ⟨hlogged, hentries⟩ := h.ne_awaiting hcall
  set s₁ : Calls := { s with
    requests := s.requests + 1
    pendingRequests := s.pendingRequests.set (cfg.requestId s.requests) entry }
  have hcall₁ : s₁.all[i]? = some ⟨.request msgType timeout, .awaiting p⟩ := hcall
  constructor
  · exact h.kept
  · exact h.nodup
  · exact h.keys.set _ _
  · intro j hj
    rw [setPhase_ne (hlogged j hj)]
    exact h.logged j hj
  · intro j kind ws ticket hj
    rcases setPhase_cases hcall₁ hj with ⟨-, heq⟩ | ⟨-, hj⟩
    · cases heq
    · exact h.queued j kind ws ticket hj
  · intro j kind hj
    rcases setPhase_cases hcall₁ hj with ⟨-, heq⟩ | ⟨-, hj⟩
    · cases heq
    · exact h.thrown j kind hj
  · intro j kind ws' id hj
    rcases setPhase_cases hcall₁ hj with ⟨rfl, heq⟩ | ⟨-, hj⟩
    · cases heq
      exact .inr ⟨entry, InsertionMap.mem_set.mpr (.inl rfl), hentry⟩
    · refine (h.asked j kind ws' id hj).imp_right fun ⟨q, hq, hqj⟩ => ?_
      -- its id is one of an earlier request
      have hne : id ≠ cfg.requestId s.requests := by
        rintro rfl
        obtain ⟨n, hn, hid⟩ := h.issued j kind ws' _ hj
        exact absurd (hids hid) (Nat.ne_of_lt hn)
      exact ⟨q, InsertionMap.mem_set.mpr (.inr ⟨hq, hne⟩), hqj⟩
  · intro j kind ws' id hj
    rcases setPhase_cases hcall₁ hj with ⟨-, heq⟩ | ⟨-, hj⟩
    · cases heq
      exact ⟨s.requests, Nat.lt_succ_self _, rfl⟩
    · obtain ⟨n, hn, hid⟩ := h.issued j kind ws' id hj
      exact ⟨n, Nat.lt_succ_of_lt hn, hid⟩
  · intro id q hq
    rcases InsertionMap.mem_set.mp hq with heq | ⟨hq, -⟩
    · obtain ⟨rfl, rfl⟩ := Prod.mk.inj heq
      rw [hentry]
      exact ⟨msgType, timeout, ws, setPhase_self hcall₁ _, hreply⟩
    · rw [setPhase_ne (hentries id q hq)]
      exact h.entry id q hq

theorem request (h : Books cfg s) (hids : Function.Injective cfg.requestId) {i p : Nat} {msgType : String}
    {timeout : Option Int} (hcall : s.all[i]? = some ⟨.request msgType timeout, .awaiting p⟩) (ws : Nat) :
    Books cfg (s.request cfg ws i msgType timeout) := by
  let entry : PendingRequest :=
    { call := i, replyType := replyTypeOf msgType, timeoutMs := timeout.getD DEFAULT_REQUEST_TIMEOUT_MS }
  have hask := @ask cfg s h hids i p msgType timeout hcall ws entry rfl rfl
  unfold Calls.request
  dsimp only
  split
  · exact hask.settle_direct (setPhase_self hcall _) trivial _
  · exact hask

/-- The queue goes on. -/
theorem queue (h : Books cfg s) {queue : ExecutionQueue.State} (hkept : Kept cfg.queue queue)
    (hlog : s.queue.log <+: queue.log) : Books cfg { s with queue } :=
  { h with
    kept := hkept
    queued := fun i kind ws ticket hcall =>
      Nat.lt_of_lt_of_le (h.queued i kind ws ticket hcall) (h.kept.nextTicket_le hkept hlog) }

theorem runQueue (h : Books cfg s) (hids : FreshIds cfg.queue) (e : ExecutionQueue.Event) :
    Books cfg (s.runQueue cfg e) :=
  h.queue (h.kept.step hids e) (ExecutionQueue.step_log _ e)

/-- A call's code is handed to the queue, with its ticket. -/
theorem enqueue (h : Books cfg s) {i p : Nat} {kind : Kind}
    (hcall : s.all[i]? = some ⟨kind, .awaiting p⟩) (ws : Nat) {ticket : Nat}
    (hticket : ticket < s.queue.nextTicket) : Books cfg (s.setPhase i (.queued ws ticket)) := by
  obtain ⟨hlogged, hentries⟩ := h.ne_awaiting hcall
  constructor
  · exact h.kept
  · exact h.nodup
  · exact h.keys
  · intro j hj
    rw [setPhase_ne (hlogged j hj)]
    exact h.logged j hj
  · intro j kind' ws' ticket' hj
    rcases setPhase_cases hcall hj with ⟨-, heq⟩ | ⟨-, hj⟩
    · cases heq
      exact hticket
    · exact h.queued j kind' ws' ticket' hj
  · intro j kind' hj
    rcases setPhase_cases hcall hj with ⟨-, heq⟩ | ⟨-, hj⟩
    · cases heq
    · exact h.thrown j kind' hj
  · intro j kind' ws' id hj
    rcases setPhase_cases hcall hj with ⟨-, heq⟩ | ⟨-, hj⟩
    · cases heq
    · exact h.asked j kind' ws' id hj
  · intro j kind' ws' id hj
    rcases setPhase_cases hcall hj with ⟨-, heq⟩ | ⟨-, hj⟩
    · cases heq
    · exact h.issued j kind' ws' id hj
  · intro id q hq
    rw [setPhase_ne (hentries id q hq)]
    exact h.entry id q hq

theorem execute (h : Books cfg s) (hids : FreshIds cfg.queue) {i p : Nat} {code : String}
    {options : ExecutionOptions} (hcall : s.all[i]? = some ⟨.execute code options, .awaiting p⟩) (ws : Nat) :
    Books cfg (s.execute cfg ws i code options) := by
  have hqueue := h.runQueue hids (.execute code options)
  unfold Calls.execute
  dsimp only
  split
  · exact hqueue.throw hcall _
  · next hroom => exact hqueue.enqueue hcall ws (hqueue.kept.execute_ticket hroom)

/-- A request is settled, and its entry gone. -/
theorem settleRequest (h : Books cfg s) {id : String} {p : PendingRequest}
    (hp : (id, p) ∈ s.pendingRequests) (how : Settlement) : Books cfg (s.settleRequest id p how) := by
  obtain ⟨msgType, timeout, ws, hcall, -⟩ := h.entry id p hp
  unfold Calls.settleRequest
  set s₁ : Calls := { s with pendingRequests := s.pendingRequests.delete id }
  constructor
  · rw [queue_settle]
    exact h.kept
  · exact nodup_settle (s := s₁) h.nodup _ _
  · rw [pendingRequests_settle]
    exact h.keys.delete id
  · intro j hj
    rw [all_settle]
    rcases logged_settle.mp hj with hj | rfl
    · exact h.logged j hj
    · exact ⟨_, hcall, trivial⟩
  · intro j kind ws' ticket hj
    rw [all_settle] at hj
    rw [queue_settle]
    exact h.queued j kind ws' ticket hj
  · intro j kind hj
    rw [all_settle] at hj
    exact logged_settle.mpr (.inl (h.thrown j kind hj))
  · intro j kind ws' id' hj
    rw [all_settle] at hj
    rw [pendingRequests_settle, logged_settle]
    rcases h.asked j kind ws' id' hj with hlogged | ⟨q, hq, hqj⟩
    · exact .inl (.inl hlogged)
    · by_cases hid : id' = id
      · -- the entry that goes is the call's own
        subst hid
        have hget := InsertionMap.get_of_mem h.keys hp
        rw [InsertionMap.get_of_mem h.keys hq] at hget
        rw [← Option.some.inj hget]
        exact .inl (.inr hqj.symm)
      · exact .inr ⟨q, InsertionMap.mem_delete.mpr ⟨hq, hid⟩, hqj⟩
  · intro j kind ws' id' hj
    rw [all_settle] at hj
    rw [requests_settle]
    exact h.issued j kind ws' id' hj
  · intro id' q hq
    rw [pendingRequests_settle] at hq
    rw [all_settle]
    exact h.entry id' q (InsertionMap.mem_delete.mp hq).1

theorem call (h : Books cfg s) (kind : Kind) (p : Nat) :
    Books cfg { s with all := s.all ++ [⟨kind, .awaiting p⟩] } := by
  have hold : ∀ {j : Nat} {call : Call}, s.all[j]? = some call →
      (s.all ++ [⟨kind, .awaiting p⟩])[j]? = some call := by
    intro j call hj
    exact Log.getElem?_old hj
  have hnew : ∀ {j : Nat} {call : Call}, (s.all ++ [⟨kind, .awaiting p⟩])[j]? = some call →
      s.all[j]? = some call ∨ call = ⟨kind, .awaiting p⟩ := by
    intro j call hj
    exact (Log.getElem?_snoc.mp hj).imp_right And.right
  constructor
  · exact h.kept
  · exact h.nodup
  · exact h.keys
  · intro j hj
    obtain ⟨call, hcall, hdirect⟩ := h.logged j hj
    exact ⟨call, hold hcall, hdirect⟩
  · intro j kind' ws ticket hj
    rcases hnew hj with hj | heq
    · exact h.queued j kind' ws ticket hj
    · cases heq
  · intro j kind' hj
    rcases hnew hj with hj | heq
    · exact h.thrown j kind' hj
    · cases heq
  · intro j kind' ws id hj
    rcases hnew hj with hj | heq
    · exact h.asked j kind' ws id hj
    · cases heq
  · intro j kind' ws id hj
    rcases hnew hj with hj | heq
    · exact h.issued j kind' ws id hj
    · cases heq
  · intro id q hq
    obtain ⟨msgType, timeout, ws, hcall, hreply⟩ := h.entry id q hq
    exact ⟨msgType, timeout, ws, hold hcall, hreply⟩

end Books

/-! ## What each callback settles -/

theorem all_settleRequest (s : Calls) (id : String) (p : PendingRequest) (how : Settlement) :
    (s.settleRequest id p how).all = s.all :=
  all_settle _ _ _

namespace Grows

/-- Entries come and go. -/
theorem requests (s : Calls) (pendingRequests : InsertionMap String PendingRequest) (requests : Nat) :
    Grows own s { s with pendingRequests, requests } :=
  ⟨fun _ _ h => h, fun _ _ h => .inl h⟩

theorem settleRequest (s : Calls) (id : String) {p : PendingRequest} {how : Settlement}
    (hown : own p.call how) : Grows own s (s.settleRequest id p how) :=
  (requests s (s.pendingRequests.delete id) s.requests).trans (settle _ hown)

theorem throw {i p : Nat} {kind : Kind} (hcall : s.all[i]? = some ⟨kind, .awaiting p⟩) {error : String}
    (hown : own i (.rejected error)) : Grows own s (s.throw i error) :=
  (setPhase hcall .thrown fun _ _ heq => nomatch heq).trans (settle _ hown)

theorem request {i p : Nat} {kind : Kind} (hcall : s.all[i]? = some ⟨kind, .awaiting p⟩) (ws : Nat)
    (msgType : String) (timeout : Option Int) (hrejected : ∀ i error, own i (.rejected error)) :
    Grows own s (s.request cfg ws i msgType timeout) := by
  unfold Calls.request
  dsimp only
  set s₁ : Calls := { s with
    requests := s.requests + 1
    pendingRequests := s.pendingRequests.set (cfg.requestId s.requests) {
      call := i
      replyType := replyTypeOf msgType
      timeoutMs := timeout.getD DEFAULT_REQUEST_TIMEOUT_MS } }
  have hcall₁ : s₁.all[i]? = some ⟨kind, .awaiting p⟩ := hcall
  have hask : Grows own s (s₁.setPhase i (.asked ws (cfg.requestId s.requests))) :=
    (requests s _ _).trans (setPhase hcall₁ _ fun _ _ heq => nomatch heq)
  split
  · exact hask.trans (settle _ (hrejected _ _))
  · exact hask

/-- A call that joins the others is not settled. -/
theorem call (s : Calls) (kind : Kind) (p : Nat) :
    Grows own s { s with all := s.all ++ [⟨kind, .awaiting p⟩] } := by
  have hcall : ∀ {i ws ticket : Nat} {kind' : Kind}, (s.all ++ [⟨kind, .awaiting p⟩])[i]? =
      some ⟨kind', .queued ws ticket⟩ ↔ s.all[i]? = some ⟨kind', .queued ws ticket⟩ := by
    intro i ws ticket kind'
    rw [List.getElem?_append]
    split
    · exact Iff.rfl
    · next hlt =>
      rw [List.getElem?_eq_none (Nat.le_of_not_lt hlt)]
      constructor
      · intro h
        cases List.mem_singleton.mp (List.mem_of_getElem? h)
      · intro h
        cases h
  have hsame : ∀ i how, how ∈ Calls.settlements { s with all := s.all ++ [⟨kind, .awaiting p⟩] } i ↔
      how ∈ s.settlements i := by
    intro i how
    rw [mem_settlements, mem_settlements]
    dsimp only
    simp only [hcall]
  exact ⟨fun i how => (hsame i how).mpr, fun i how h => .inl ((hsame i how).mp h)⟩

end Grows

/-- What the queue's callback `e` settles. -/
theorem grows_runQueue (s : Calls) (e : ExecutionQueue.Event) (hrejected : ∀ i error, own i (.rejected error))
    (hown : ∀ i kind ws ticket result, s.all[i]? = some ⟨kind, .queued ws ticket⟩ →
      result = ExecutionQueue.abortedResult ∨ ExecutionQueue.Answers s.queue e ticket →
      own i (.executed result)) :
    Grows own s (s.runQueue cfg e) :=
  .queue (ExecutionQueue.step_log _ e) (ExecutionQueue.resolves_step _ e) hrejected hown

/-- An execution that is only accepted resolves none. -/
theorem grows_execute (h : Books cfg s) {i p : Nat} {kind : Kind}
    (hcall : s.all[i]? = some ⟨kind, .awaiting p⟩) (ws : Nat) (code : String) (options : ExecutionOptions)
    (hrejected : ∀ i error, own i (.rejected error)) :
    Grows own s (s.execute cfg ws i code options) := by
  have hresolves : Resolves (fun _ _ => False) s.queue
      (ExecutionQueue.step cfg.queue s.queue (.execute code options)) := .execute _ code options
  have hqueue : Grows own s (s.runQueue cfg (.execute code options)) :=
    .queue (ExecutionQueue.step_log _ _) hresolves hrejected fun _ _ _ _ _ _ hfalse => hfalse.elim
  have hcall' : (s.runQueue cfg (.execute code options)).all[i]? = some ⟨kind, .awaiting p⟩ := hcall
  unfold Calls.execute
  dsimp only
  split
  · exact hqueue.trans (.throw hcall' (hrejected _ _))
  · refine hqueue.trans (.setPhase hcall' _ fun ws' ticket heq outcome hsettled => ?_)
    cases heq
    cases outcome with
    | rejected error => exact hrejected i error
    | resolved result =>
      -- the ticket is new
      have hold := (hresolves _ _ hsettled).resolve_right id
      have hlt := h.kept.ledger.settled_lt _ (ExecutionQueue.mem_settled.mpr ⟨_, hold⟩)
      exact absurd hlt (Nat.lt_irrefl _)

/-! ## `clear` -/

/-- The loop of `rejectPendingRequests`. -/
theorem rejectLoop (h : Books cfg s) (error : String) (hrejected : ∀ i, own i (.rejected error))
    (es : List (String × PendingRequest)) (hsub : es ⊆ s.pendingRequests)
    (hnodup : (es.map Prod.fst).Nodup) :
    let s' := es.foldl (fun s e => s.settleRequest e.1 e.2 (.rejected error)) s
    Books cfg s' ∧ Grows own s s' ∧ s'.all = s.all ∧ s'.queue = s.queue ∧ (∀ i, s.Logged i → s'.Logged i) ∧
      ∀ e ∈ es, s'.Logged e.2.call := by
  induction es generalizing s with
  | nil => exact ⟨h, .refl s, rfl, rfl, fun _ hi => hi, fun e he => absurd he List.not_mem_nil⟩
  | cons e es ih =>
    rw [List.map_cons, List.nodup_cons] at hnodup
    have hmem := hsub List.mem_cons_self
    have hrest : es ⊆ (s.settleRequest e.1 e.2 (.rejected error)).pendingRequests := by
      intro e' he'
      rw [Calls.settleRequest, pendingRequests_settle]
      refine InsertionMap.mem_delete.mpr ⟨hsub (List.mem_cons_of_mem _ he'), fun hid => ?_⟩
      exact hnodup.1 (hid ▸ List.mem_map_of_mem he')
    obtain ⟨hbooks, hgrows, hall, hqueue, hkept, hlogged⟩ :=
      ih (h.settleRequest hmem (.rejected error)) hrest hnodup.2
    refine ⟨hbooks, (Grows.settleRequest s e.1 (hrejected _)).trans hgrows,
      hall.trans (all_settle _ _ _), hqueue.trans (queue_settle _ _ _), fun i hi => ?_, fun e' he' => ?_⟩
    · exact hkept i (logged_settle.mpr (.inl hi))
    · rcases List.mem_cons.mp he' with rfl | he'
      · exact hkept _ (logged_settle.mpr (.inr rfl))
      · exact hlogged e' he'

/-- **`clear` leaves nothing that was sent**: a call that does not await is settled, and what it
settles it rejects. -/
theorem clear_settles (h : Books cfg s) (hids : FreshIds cfg.queue) (error : String)
    (hrejected : ∀ i error, own i (.rejected error)) :
    Books cfg (s.clear error) ∧ Grows own s (s.clear error) ∧ (s.clear error).all = s.all ∧
      ∀ i call, s.all[i]? = some call → (∀ p, call.phase ≠ .awaiting p) →
        (s.clear error).settlements i ≠ [] := by
  have hqueue : Books cfg (s.runQueue cfg .clear) := h.runQueue hids .clear
  have hresolves : Resolves (fun _ _ => False) s.queue (ExecutionQueue.clear s.queue) := .clear s.queue
  have hgrows : Grows own s (s.runQueue cfg .clear) :=
    .queue (@ExecutionQueue.step_log cfg.queue _ .clear) hresolves hrejected
      fun _ _ _ _ _ _ hfalse => hfalse.elim
  obtain ⟨hbooks, hgrows', hall, hqueue', hkept, hlogged⟩ := rejectLoop hqueue error
    (fun i => hrejected i error) s.pendingRequests (fun _ he => he) h.keys
  refine ⟨hbooks, hgrows.trans hgrows', hall, fun i call hcall hphase => ?_⟩
  obtain ⟨kind, phase⟩ := call
  cases phase with
  | awaiting p => exact absurd rfl (hphase p)
  | queued ws ticket =>
    obtain ⟨outcome, hsettled⟩ :=
      ExecutionQueue.mem_settled.mp (h.kept.clear_settles (h.queued i kind ws ticket hcall))
    refine List.ne_nil_of_mem (mem_settlements.mpr (.inr ⟨kind, ws, ticket, outcome, ?_, ?_, rfl⟩))
    · exact hall ▸ hcall
    · exact hqueue' ▸ hsettled
  | asked ws id =>
    refine Books.settled_of_logged ?_
    rcases h.asked i kind ws id hcall with hi | ⟨p, hp, rfl⟩
    · exact hkept i hi
    · exact hlogged _ hp
  | thrown => exact Books.settled_of_logged (hkept i (h.thrown i kind hcall))

end Calls

end Jovian.SessionCalls
