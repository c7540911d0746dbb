import Jovian.Client.CallBooks
import Jovian.Client.SessionLines

/-!
# Jovian — the calls of a session settle

`Reached` ties the calls to the connection: what was sent and is not settled went over the socket
the session still has, and once the session has ended only calls that will throw await. The endings
keep it as `clear` leaves nothing that was sent; the condition `caught` is what they need of the calls
that `clear` does not see, because they are still at their `await`.

* **`calls_settle`** — the theorem, over the runs whose steps are all `caught`.
* **`calls_are_stranded`** — an `execute()` after `stop()` and a `request()` after a `kernelExit`.
-/

namespace Jovian.SessionCalls

open Transition (System)
open ExecutionQueue (ExecutionOptions FreshIds JupyterMessage)

variable {cfg : Config}

/-! ## The invariant -/

/-- The socket a call was sent over. -/
def Phase.ws? : Phase → Option Nat
  | .queued ws _ | .asked ws _ => some ws
  | .awaiting _ | .thrown => none

/-- With an error. -/
def Rejected (_ : Nat) (how : Settlement) : Prop := ∃ error, how = .rejected error

theorem rejected_rejected (i : Nat) (error : String) : Rejected i (.rejected error) := ⟨error, rfl⟩

/-- What was sent over a socket and is not settled went over the one the session has; when it has
ended, only calls that will throw are not settled. -/
structure Reached (cfg : Config) (s : State) : Prop where
  books : s.calls.Books cfg
  lines : s.conn.Lines
  replaced : s.conn.Replaced
  awaited : ∀ (i : Nat) kind p, s.calls.all[i]? = some ⟨kind, .awaiting p⟩ → p < s.conn.promises.length
  sent : ∀ (i : Nat) call ws, s.calls.all[i]? = some call → s.calls.settlements i = [] → call.phase.ws? = some ws →
    s.conn.carries ws = true ∧ s.conn.ended = false
  refused : s.conn.ended = true → ∀ (i : Nat) kind p, s.calls.all[i]? = some ⟨kind, .awaiting p⟩ →
    refused s.conn.dead.isSome kind (s.conn.promise p) = true

theorem reached_init : Reached cfg {} where
  books := Calls.books_init
  lines := Connection.lines_init
  replaced _ h := by cases h
  awaited _ _ _ h := by cases h
  sent _ _ _ h := by cases h
  refused h := by cases h

theorem ne_pending_of_refused {dead : Bool} {kind : Kind} {r : Ready} (h : refused dead kind r = true) :
    r ≠ .pending := by
  rintro rfl
  cases h

/-- A call that is refused throws when it gets on. -/
theorem resume_refused {s : State} {i p : Nat} {kind : Kind}
    (hcall : s.calls.all[i]? = some ⟨kind, .awaiting p⟩)
    (hrefused : refused s.conn.dead.isSome kind (s.conn.promise p) = true) :
    ∃ error, resume cfg s i = { s with calls := s.calls.throw i error } := by
  unfold resume
  rw [hcall]
  dsimp only
  cases hr : s.conn.promise p with
  | pending => exact absurd hr (ne_pending_of_refused hrefused)
  | rejected error => exact ⟨error, rfl⟩
  | resolved =>
    rw [hr] at hrefused
    obtain ⟨hdead, hexecute⟩ := Bool.and_eq_true_iff.mp hrefused
    obtain ⟨reason, hreason⟩ := Option.isSome_iff_exists.mp hdead
    cases kind with
    | execute code options =>
      rw [hreason]
      exact ⟨endedMessage reason, rfl⟩
    | request msgType timeout => cases hexecute

namespace Calls

variable {s : Calls}

theorem throw_settlements (h : s.Books cfg) {i p : Nat} {kind : Kind}
    (hcall : s.all[i]? = some ⟨kind, .awaiting p⟩) (error : String) :
    (s.throw i error).settlements i = [.rejected error] := by
  have hnew : ¬ (s.setPhase i .thrown).Logged i := h.not_logged hcall id
  have hmem : Settlement.rejected error ∈ (s.throw i error).settlements i :=
    mem_settlements.mpr (.inl (mem_log_settle.mpr (.inr ⟨rfl, hnew⟩)))
  have hone := (h.throw hcall error).once i
  obtain ⟨how, heq⟩ := List.length_eq_one_iff.mp (Nat.le_antisymm hone (List.length_pos_of_mem hmem))
  rw [heq] at hmem ⊢
  rw [List.mem_singleton.mp hmem]

end Calls

namespace Reached

variable {s s' : State}

/-- What is not settled awaits, or it was sent. -/
theorem held (h : Reached cfg s) {i : Nat} {call : Call} (hcall : s.calls.all[i]? = some call)
    (hunsettled : s.calls.settlements i = []) : Held s i call.phase := by
  obtain ⟨kind, phase⟩ := call
  have hsent : ∀ ws, phase.ws? = some ws → s.conn.carries ws = true := fun ws hws =>
    (h.sent i _ ws hcall hunsettled hws).1
  have hlogged : ¬ s.calls.Logged i := fun hi => Calls.Books.settled_of_logged hi hunsettled
  cases phase with
  | awaiting p =>
    by_cases hpending : s.conn.promise p = .pending
    · exact .inr (h.lines.place p (h.awaited i kind p hcall) hpending)
    · exact .inl hpending
  | queued ws ticket =>
    refine ⟨hsent ws rfl, h.books.kept.placed (h.books.queued i kind ws ticket hcall) fun hsettled => ?_⟩
    obtain ⟨outcome, houtcome⟩ := ExecutionQueue.mem_settled.mp hsettled
    refine List.not_mem_nil (a := Settlement.ofOutcome outcome) (hunsettled ▸ ?_)
    exact Calls.mem_settlements.mpr (.inr ⟨kind, ws, ticket, outcome, hcall, houtcome, rfl⟩)
  | asked ws id =>
    obtain ⟨p, hp, hpi⟩ := (h.books.asked i kind ws id hcall).resolve_left hlogged
    exact ⟨hsent ws rfl, p, InsertionMap.get_of_mem h.books.keys hp, hpi⟩
  | thrown => exact hlogged (h.books.thrown i kind hcall)

theorem sound (h : Reached cfg s) : Sound cfg s where
  once := h.books.once
  held i call hcall hunsettled := h.held hcall hunsettled
  ended hended i hi hunsettled := by
    obtain ⟨⟨kind, phase⟩, hcall⟩ : ∃ call, s.calls.all[i]? = some call :=
      ⟨_, List.getElem?_eq_getElem hi⟩
    cases phase with
    | awaiting p =>
      obtain ⟨error, heq⟩ := @resume_refused cfg s i p kind hcall (h.refused hended i kind p hcall)
      exact ⟨error, heq ▸ Calls.throw_settlements h.books hcall error⟩
    | thrown => exact absurd (h.held hcall hunsettled) id
    | queued ws ticket =>
      cases (h.sent i _ ws hcall hunsettled rfl).2.symm.trans hended
    | asked ws id =>
      cases (h.sent i _ ws hcall hunsettled rfl).2.symm.trans hended

/-- The connection stays, and the calls where they are. -/
theorem with_calls (h : Reached cfg s) {own : Nat → Settlement → Prop} {calls : Calls}
    (hbooks : calls.Books cfg) (hall : calls.all = s.calls.all) (hgrows : s.calls.Grows own calls) :
    Reached cfg { s with calls } where
  books := hbooks
  lines := h.lines
  replaced := h.replaced
  awaited i kind p hcall := h.awaited i kind p (hall ▸ hcall)
  sent i call ws hcall hunsettled hws := by
    refine h.sent i call ws (hall ▸ hcall) ?_ hws
    rw [List.eq_nil_iff_forall_not_mem] at hunsettled ⊢
    exact fun how hmem => hunsettled how (hgrows.stays i how hmem)
  refused hended i kind p hcall := h.refused hended i kind p (hall ▸ hcall)

/-- The calls stay, and the connection does not end. -/
theorem with_conn (h : Reached cfg s) {conn : Connection} (hlines : conn.Lines)
    (hlength : s.conn.promises.length ≤ conn.promises.length) (hstopped : conn.stopped = s.conn.stopped)
    (hdead : conn.dead = s.conn.dead)
    (hpromise : ∀ p, s.conn.promise p ≠ .pending → conn.promise p = s.conn.promise p)
    (hreplaced : conn.Replaced)
    (hcarries : ∀ (i : Nat) call ws, s.calls.all[i]? = some call → s.calls.settlements i = [] →
      call.phase.ws? = some ws → s.conn.carries ws = true → conn.carries ws = true) :
    Reached cfg { s with conn } where
  books := h.books
  lines := hlines
  replaced := hreplaced
  awaited i kind p hcall := Nat.lt_of_lt_of_le (h.awaited i kind p hcall) hlength
  sent i call ws hcall hunsettled hws := by
    obtain ⟨hcarried, hended⟩ := h.sent i call ws hcall hunsettled hws
    refine ⟨hcarries i call ws hcall hunsettled hws hcarried, ?_⟩
    rw [Connection.ended] at hended ⊢
    rw [hstopped, hdead]
    exact hended
  refused hended i kind p hcall := by
    rw [Connection.ended, hstopped, hdead] at hended
    have hrefused := h.refused hended i kind p hcall
    rw [hdead, hpromise p (ne_pending_of_refused hrefused)]
    exact hrefused

/-- `clear` ran: whatever the connection now is, only the calls that await count. -/
theorem cleared (h : Reached cfg s) (hids : FreshIds cfg.queue) {conn : Connection} (hlines : conn.Lines)
    (hlength : s.conn.promises.length ≤ conn.promises.length) (hreplaced : conn.Replaced)
    (hrefused : conn.ended = true → ∀ (i : Nat) kind p, s.calls.all[i]? = some ⟨kind, .awaiting p⟩ →
      SessionCalls.refused conn.dead.isSome kind (conn.promise p) = true) (error : String) :
    Reached cfg { conn, calls := s.calls.clear error } ∧
      s.calls.Grows Rejected (s.calls.clear error) := by
  obtain ⟨hbooks, hgrows, hall, hsettled⟩ := Calls.clear_settles h.books hids error rejected_rejected
  refine ⟨⟨hbooks, hlines, hreplaced, fun i kind p hcall => ?_, fun i call ws hcall hunsettled hws => ?_,
    fun hended i kind p hcall => ?_⟩, hgrows⟩
  · exact Nat.lt_of_lt_of_le (h.awaited i kind p (hall ▸ hcall)) hlength
  · refine absurd hunsettled (hsettled i call (hall ▸ hcall) fun p hp => ?_)
    rw [hp] at hws
    cases hws
  · exact hrefused hended i kind p (hall ▸ hcall)

end Reached

/-! ## The steps -/

namespace Reached

variable {s : State}

/-- Every call that awaits is refused. -/
theorem of_awaitRefused {calls : Calls} {dead : Bool} {c : Connection}
    (h : calls.awaitRefused dead c = true) {i p : Nat} {kind : Kind}
    (hcall : calls.all[i]? = some ⟨kind, .awaiting p⟩) :
    SessionCalls.refused dead kind (c.promise p) = true :=
  List.all_eq_true.mp h _ (List.mem_of_getElem? hcall)

theorem of_noneSent {calls : Calls} (h : calls.noneSent = true) {i ws : Nat} {call : Call}
    (hcall : calls.all[i]? = some call) (hws : call.phase.ws? = some ws) : calls.settlements i ≠ [] := by
  have hi := List.all_eq_true.mp h i (List.mem_range.mpr (List.getElem?_eq_some_iff.mp hcall).1)
  rw [hcall] at hi
  obtain ⟨kind, phase⟩ := call
  cases phase with
  | awaiting p => cases hws
  | thrown => cases hws
  | queued ws ticket => exact of_decide_eq_true hi
  | asked ws id => exact of_decide_eq_true hi

/-- A session whose promise is resolved has its socket. -/
theorem carries (h : Reached cfg s) (hresolved : s.conn.promise s.conn.readyPromise = .resolved)
    (hended : s.conn.ended = false) : s.conn.carries s.conn.ws = true := by
  by_contra hlost
  rw [Bool.not_eq_true] at hlost
  rcases h.replaced hended hlost with hmem | ⟨error, herror⟩
  · cases (h.lines.restarting _ hmem).2.symm.trans hresolved
  · cases herror.symm.trans hresolved

/-- A call gets on. -/
theorem resumed (h : Reached cfg s) {own : Nat → Settlement → Prop} (i : Nat) (call : Call)
    {calls : Calls} (hbooks : calls.Books cfg) (hgrows : s.calls.Grows own calls)
    (hself : calls.all[i]? = some call) (hother : ∀ j, j ≠ i → calls.all[j]? = s.calls.all[j]?)
    (hphase : ∀ p, call.phase ≠ .awaiting p)
    (hws : ∀ ws, call.phase.ws? = some ws → s.conn.carries ws = true ∧ s.conn.ended = false) :
    Reached cfg { s with calls } where
  books := hbooks
  lines := h.lines
  replaced := h.replaced
  awaited j kind p hcall := by
    have hne : j ≠ i := by
      rintro rfl
      exact hphase p (congrArg Call.phase (Option.some.inj (hself.symm.trans hcall)))
    exact h.awaited j kind p (hother j hne ▸ hcall)
  sent j call' ws hcall hunsettled hsent := by
    by_cases heq : j = i
    · subst heq
      obtain rfl := Option.some.inj (hself.symm.trans hcall)
      exact hws ws hsent
    · refine h.sent j call' ws (hother j heq ▸ hcall) ?_ hsent
      rw [List.eq_nil_iff_forall_not_mem] at hunsettled ⊢
      exact fun how hmem => hunsettled how (hgrows.stays j how hmem)
  refused hended j kind p hcall := by
    have hne : j ≠ i := by
      rintro rfl
      exact hphase p (congrArg Call.phase (Option.some.inj (hself.symm.trans hcall)))
    exact h.refused hended j kind p (hother j hne ▸ hcall)

/-- A call throws after its `await`. -/
theorem throws (h : Reached cfg s) {i p : Nat} {kind : Kind}
    (hcall : s.calls.all[i]? = some ⟨kind, .awaiting p⟩) (error : String) :
    Reached cfg { s with calls := s.calls.throw i error } ∧
      s.calls.Grows Rejected (s.calls.throw i error) := by
  have hgrows : s.calls.Grows Rejected (s.calls.throw i error) := .throw hcall (rejected_rejected i error)
  refine ⟨h.resumed i ⟨kind, .thrown⟩ (h.books.throw hcall error) hgrows ?_ (fun j hne => ?_)
    (fun p heq => nomatch heq) (fun ws heq => nomatch heq), hgrows⟩
  · rw [Calls.throw, Calls.all_settle]
    exact Calls.setPhase_self hcall _
  · rw [Calls.throw, Calls.all_settle]
    exact Calls.setPhase_ne hne _

/-- `execute()` goes on in a session that has not ended. -/
theorem executes (h : Reached cfg s) (hids : FreshIds cfg.queue) {i p : Nat} {code : String}
    {options : ExecutionOptions} (hcall : s.calls.all[i]? = some ⟨.execute code options, .awaiting p⟩)
    (hcarries : s.conn.carries s.conn.ws = true) (hended : s.conn.ended = false) :
    Reached cfg { s with calls := s.calls.execute cfg s.conn.ws i code options } ∧
      s.calls.Grows Rejected (s.calls.execute cfg s.conn.ws i code options) := by
  have hbooks := h.books.execute hids hcall s.conn.ws
  have hgrows := Calls.grows_execute h.books hcall s.conn.ws code options rejected_rejected
  refine ⟨?_, hgrows⟩
  have hcall' : (s.calls.runQueue cfg (.execute code options)).all[i]? =
      some ⟨.execute code options, .awaiting p⟩ := hcall
  unfold Calls.execute at hbooks hgrows ⊢
  dsimp only at hbooks hgrows ⊢
  by_cases hfull : s.calls.queue.queue.length ≥ cfg.queueSize
  · rw [if_pos hfull] at hbooks hgrows ⊢
    refine h.resumed i ⟨.execute code options, .thrown⟩ hbooks hgrows ?_ (fun j hne => ?_)
      (fun p heq => nomatch heq) (fun ws heq => nomatch heq)
    · rw [Calls.throw, Calls.all_settle]
      exact Calls.setPhase_self hcall' _
    · rw [Calls.throw, Calls.all_settle]
      exact Calls.setPhase_ne hne _
  · rw [if_neg hfull] at hbooks hgrows ⊢
    refine h.resumed i _ hbooks hgrows (Calls.setPhase_self hcall' _) (fun j hne => Calls.setPhase_ne hne _)
      (fun p heq => nomatch heq) fun ws heq => ?_
    rw [← Option.some.inj heq]
    exact ⟨hcarries, hended⟩

theorem requests (h : Reached cfg s) (hids : Function.Injective cfg.requestId) {i p : Nat}
    {msgType : String} {timeout : Option Int}
    (hcall : s.calls.all[i]? = some ⟨.request msgType timeout, .awaiting p⟩)
    (hcarries : s.conn.carries s.conn.ws = true) (hended : s.conn.ended = false) :
    Reached cfg { s with calls := s.calls.request cfg s.conn.ws i msgType timeout } ∧
      s.calls.Grows Rejected (s.calls.request cfg s.conn.ws i msgType timeout) := by
  have hgrows : s.calls.Grows Rejected (s.calls.request cfg s.conn.ws i msgType timeout) :=
    .request hcall s.conn.ws msgType timeout rejected_rejected
  have hall : ∀ (j : Nat), (s.calls.request cfg s.conn.ws i msgType timeout).all[j]? =
      (s.calls.setPhase i (.asked s.conn.ws (cfg.requestId s.calls.requests))).all[j]? := by
    intro j
    unfold Calls.request
    dsimp only
    split
    · rw [Calls.all_settle]
      rfl
    · rfl
  refine ⟨?_, hgrows⟩
  refine h.resumed i _ (h.books.request hids hcall s.conn.ws) hgrows
    ((hall i).trans (Calls.setPhase_self hcall _)) (fun j hne => (hall j).trans (Calls.setPhase_ne hne _))
    (fun p heq => by cases heq) fun ws heq => ?_
  rw [← Option.some.inj heq]
  exact ⟨hcarries, hended⟩

/-- **A call gets on**, and it is caught: it throws, or the session has not ended. -/
theorem resume (h : Reached cfg s) (hids : FreshIds cfg.queue)
    (hrequest : Function.Injective cfg.requestId) {i : Nat} (hcaught : caught cfg s (.resume i) = true) :
    Reached cfg (SessionCalls.resume cfg s i) ∧
      s.calls.Grows Rejected (SessionCalls.resume cfg s i).calls := by
  have hsame : Reached cfg s ∧ s.calls.Grows Rejected s.calls := ⟨h, .refl _⟩
  cases hcall : s.calls.all[i]? with
  | none =>
    unfold SessionCalls.resume
    rw [hcall]
    exact hsame
  | some call =>
    obtain ⟨kind, phase⟩ := call
    unfold caught at hcaught
    dsimp only at hcaught
    rw [hcall] at hcaught
    cases phase with
    | queued ws ticket | asked ws id | thrown =>
      unfold SessionCalls.resume
      rw [hcall]
      exact hsame
    | awaiting p =>
      by_cases hrefused : SessionCalls.refused s.conn.dead.isSome kind (s.conn.promise p) = true
      · obtain ⟨error, heq⟩ := @resume_refused cfg s i p kind hcall hrefused
        rw [heq]
        exact h.throws hcall error
      · have hended : s.conn.ended = false := by
          by_contra hended
          rw [Bool.not_eq_false] at hended
          exact hrefused (h.refused hended i kind p hcall)
        unfold SessionCalls.resume
        rw [hcall]
        dsimp only
        cases hr : s.conn.promise p with
        | pending => exact hsame
        | rejected error => exact absurd (by rw [hr]; rfl) hrefused
        | resolved =>
          dsimp only at hcaught
          rw [hr] at hcaught hrefused
          -- the promise is the session's own
          have hready : p = s.conn.readyPromise := by
            simp only [ne_eq, not_true, decide_false, Bool.false_or, Bool.or_eq_true, decide_eq_true_eq]
              at hcaught
            exact hcaught.resolve_right hrefused
          have hcarries := h.carries (hready ▸ hr) hended
          cases kind with
          | execute code options =>
            have hdead : s.conn.dead = none := by
              rw [Connection.ended, Bool.or_eq_false_iff] at hended
              exact Option.isNone_iff_eq_none.mp (Option.isSome_eq_false_iff.mp hended.2)
            rw [hdead]
            exact h.executes hids hcall hcarries hended
          | request msgType timeout => exact h.requests hrequest hcall hcarries hended

/-- **A session ends**, or restarts: `clear` reaches what was sent. -/
theorem ends (h : Reached cfg s) (hids : FreshIds cfg.queue) {conn : Connection} (hlines : conn.Lines)
    (hended : conn.ended = true) (hlength : s.conn.promises.length ≤ conn.promises.length)
    (hcaught : s.calls.awaitRefused conn.dead.isSome conn = true) (error : String) :
    Reached cfg { conn, calls := s.calls.clear error } ∧ s.calls.Grows Rejected (s.calls.clear error) :=
  h.cleared hids hlines hlength (.of_ended hended) (fun _ _ _ _ hcall => of_awaitRefused hcaught hcall) error

/-- The three ways to stop. -/
theorem stopWith (h : Reached cfg s) (hids : FreshIds cfg.queue) (error : String)
    (hcaught : (s.conn.stopped || s.calls.awaitRefused s.conn.dead.isSome s.conn) = true) :
    Reached cfg (stopWith error s) ∧ s.calls.Grows Rejected (SessionCalls.stopWith error s).calls := by
  unfold SessionCalls.stopWith
  split
  · exact ⟨h, .refl _⟩
  · next hstopped =>
    rw [Bool.not_eq_true] at hstopped
    rw [hstopped, Bool.false_or] at hcaught
    exact h.ends hids (h.lines.with_flags true s.conn.dead) rfl (Nat.le_refl _) hcaught error

theorem restart (h : Reached cfg s) (hids : FreshIds cfg.queue) :
    Reached cfg (restart s) ∧ s.calls.Grows Rejected (SessionCalls.restart s).calls := by
  unfold SessionCalls.restart
  split
  · exact ⟨h, .refl _⟩
  · next hstopped =>
    rw [Bool.not_eq_true] at hstopped
    set conn : Connection := { s.conn with
      dead := none
      promises := s.conn.promises ++ [.pending]
      restarting := s.conn.restarting ++ [s.conn.promises.length] }
    have hlines : conn.Lines := h.lines.restart.with_flags s.conn.stopped none
    have hlength : conn.promises.length = s.conn.promises.length + 1 := List.length_append
    refine h.cleared hids hlines (hlength ▸ Nat.le_succ _) (fun _ _ => .inl ?_) (fun hended => ?_) _
    · rw [Connection.readyPromise, hlength]
      exact List.mem_append_right _ List.mem_cons_self
    · have hgoes : conn.ended = false := by
        simp [Connection.ended, conn, hstopped]
      cases hgoes.symm.trans hended

theorem connect (h : Reached cfg s) {p : Nat} (hcaught : caught cfg s (.connect p) = true) :
    Reached cfg (connect s p) := by
  unfold SessionCalls.connect
  split
  · next hp =>
    have hnone : s.calls.noneSent = true := by
      simpa [caught, hp] using hcaught
    refine h.with_conn (h.lines.connect hp) (Nat.le_refl _) rfl rfl (fun _ _ => rfl) (fun _ hlost => ?_)
      fun i call ws hcall hunsettled hws => absurd hunsettled (of_noneSent hnone hcall hws)
    -- the new socket is open
    simp [Connection.carries, Connection.ws] at hlost
  · exact h

theorem restartFailed (h : Reached cfg s) (p : Nat) (error : String) :
    Reached cfg (restartFailed s p error) := by
  unfold SessionCalls.restartFailed
  split
  · refine h.with_conn (h.lines.restartFailed error) (Nat.le_of_eq ?_) rfl rfl (fun q hq => ?_)
      (h.replaced.restartFailed h.lines p error) fun _ _ _ _ _ _ hcarries => hcarries
    · exact (Connection.length_settle _ p _).symm
    · exact Connection.promise_settle_of_ne _ hq
  · exact h

/-- A socket's promise is settled. -/
theorem settleReady (h : Reached cfg s) (ws : Nat) {r : Ready} (hr : r ≠ .pending) :
    Reached cfg (settleReady s ws r) := by
  unfold SessionCalls.settleReady
  split
  · next ready hsocket =>
    have hready := (h.lines.socket _ (List.mem_of_getElem? hsocket)).2
    exact h.with_conn (h.lines.settle hready hr) (Nat.le_of_eq (Connection.length_settle _ _ _).symm) rfl rfl
      (fun q hq => Connection.promise_settle_of_ne r hq) (h.replaced.settle _ r)
      fun _ _ _ _ _ _ hcarries => hcarries
  · exact h

theorem closed (h : Reached cfg s) (hids : FreshIds cfg.queue) {ws : Nat}
    (hcaught : caught cfg s (.closed ws) = true) :
    Reached cfg (closed cfg s ws) ∧ s.calls.Grows Rejected (SessionCalls.closed cfg s ws).calls := by
  unfold SessionCalls.closed
  unfold caught at hcaught
  dsimp only at hcaught
  split
  · next ready hsocket =>
    rw [hsocket] at hcaught
    dsimp only at hcaught ⊢
    have hlines := h.lines.close hsocket (r := .rejected (notReadyMessage cfg)) (by simp)
    have hlength : s.conn.promises.length ≤
        ((s.conn.close ws).settle ready (.rejected (notReadyMessage cfg))).promises.length :=
      Nat.le_of_eq (Connection.length_settle _ _ _).symm
    by_cases hstopped : s.conn.stopped = true
    · have hended : s.conn.ended = true := by rw [Connection.ended, hstopped, Bool.true_or]
      rw [hstopped, Bool.true_or, if_pos rfl]
      refine ⟨h.with_conn hlines hlength rfl rfl (fun q hq => Connection.promise_settle_of_ne _ hq)
        (.of_ended hended) fun i call k hcall hunsettled hk _ => ?_, .refl _⟩
      cases (h.sent i call k hcall hunsettled hk).2.symm.trans hended
    · rw [Bool.not_eq_true] at hstopped
      rw [hstopped, Bool.false_or] at hcaught ⊢
      by_cases hws : s.conn.ws = ws
      · rw [if_neg (by simp [hws])]
        have hrefused : s.calls.awaitRefused true
            (s.conn.settle ready (.rejected (notReadyMessage cfg))) = true := by
          simpa [hws] using hcaught
        exact h.ends hids (hlines.with_flags s.conn.stopped (some "the connection to the supervisor was lost"))
          (Bool.or_true _) hlength hrefused LOST_MESSAGE
      · -- a socket the session no longer has
        rw [if_pos (by simpa using hws)]
        refine ⟨h.with_conn hlines hlength rfl rfl (fun q hq => Connection.promise_settle_of_ne _ hq)
          ((h.replaced.close hws).settle _ _) fun i call k _ _ _ hcarries => ?_, .refl _⟩
        exact (Connection.carries_close hws k).trans hcarries
  · exact ⟨h, .refl _⟩

theorem kernelExit (h : Reached cfg s) (hids : FreshIds cfg.queue) {reason : String}
    (hcaught : caught cfg s (.kernelExit reason) = true) :
    Reached cfg (kernelExit s reason) ∧ s.calls.Grows Rejected (SessionCalls.kernelExit s reason).calls := by
  unfold SessionCalls.kernelExit
  split
  · exact ⟨h, .refl _⟩
  · next hstopped =>
    rw [Bool.not_eq_true] at hstopped
    have hrefused : s.calls.awaitRefused true s.conn = true := by
      simpa [caught, hstopped] using hcaught
    exact h.ends hids (h.lines.with_flags s.conn.stopped (some reason)) (Bool.or_true _) (Nat.le_refl _)
      hrefused _

theorem call (h : Reached cfg s) {kind : Kind} (hcaught : caught cfg s (.call kind) = true) :
    Reached cfg (step cfg s (.call kind)) := by
  have hcases : ∀ {i : Nat} {call : Call}, (s.calls.all ++ [⟨kind, .awaiting s.conn.readyPromise⟩])[i]? =
      some call → s.calls.all[i]? = some call ∨ call = ⟨kind, .awaiting s.conn.readyPromise⟩ := by
    intro i call hcall
    rw [List.getElem?_append] at hcall
    split at hcall
    · exact .inl hcall
    · exact .inr (List.mem_singleton.mp (List.mem_of_getElem? hcall))
  refine ⟨h.books.call kind _, h.lines, h.replaced, fun i kind' p hcall => ?_,
    fun i call ws hcall hunsettled hws => ?_, fun hended i kind' p hcall => ?_⟩
  · rcases hcases hcall with hold | hnew
    · exact h.awaited i kind' p hold
    · cases hnew
      exact Nat.sub_lt h.lines.promises Nat.zero_lt_one
  · rcases hcases hcall with hold | rfl
    · refine h.sent i call ws hold ?_ hws
      have hgrows : s.calls.Grows Rejected _ := .call s.calls kind s.conn.readyPromise
      rw [List.eq_nil_iff_forall_not_mem] at hunsettled ⊢
      exact fun how hmem => hunsettled how (hgrows.stays i how hmem)
    · cases hws
  · rcases hcases hcall with hold | hnew
    · exact h.refused hended i kind' p hold
    · cases hnew
      have hended' : s.conn.ended = true := hended
      have hrefused : SessionCalls.refused s.conn.dead.isSome kind
          (s.conn.promise s.conn.readyPromise) = true := by
        simpa [caught, hended'] using hcaught
      exact hrefused

/-! ### Messages, errors and timers -/

theorem settleRequest (h : Reached cfg s) {id : String} {p : PendingRequest}
    (hp : s.calls.pendingRequests.get id = some p) (error : String) :
    Reached cfg { s with calls := s.calls.settleRequest id p (.rejected error) } ∧
      s.calls.Grows Rejected (s.calls.settleRequest id p (.rejected error)) := by
  have hgrows : s.calls.Grows Rejected (s.calls.settleRequest id p (.rejected error)) :=
    .settleRequest s.calls id (rejected_rejected _ error)
  exact ⟨h.with_calls (h.books.settleRequest (InsertionMap.mem_of_get hp) _)
    (Calls.all_settleRequest _ _ _ _) hgrows, hgrows⟩

theorem requestError (h : Reached cfg s) (id error : String) :
    Reached cfg { s with calls := s.calls.requestError id error } ∧
      s.calls.Grows Rejected (s.calls.requestError id error) := by
  unfold Calls.requestError
  split
  · next p hp => exact h.settleRequest hp error
  · exact ⟨h, .refl _⟩

theorem requestTimeout (h : Reached cfg s) (id : String) :
    Reached cfg { s with calls := s.calls.requestTimeout id } ∧
      s.calls.Grows Rejected (s.calls.requestTimeout id) := by
  unfold Calls.requestTimeout
  split
  · next p hp => exact h.settleRequest hp _
  · exact ⟨h, .refl _⟩

/-- A timer of the queue. -/
theorem runQueue (h : Reached cfg s) (hids : FreshIds cfg.queue) (e : ExecutionQueue.Event) :
    Reached cfg { s with calls := s.calls.runQueue cfg e } ∧
      s.calls.Grows (Own s (.timer e)) (s.calls.runQueue cfg e) := by
  have hgrows : s.calls.Grows (Own s (.timer e)) (s.calls.runQueue cfg e) :=
    Calls.grows_runQueue s.calls e (fun _ _ => trivial) fun i kind ws ticket result hcall hresult =>
      ⟨e, kind, ws, ticket, rfl, hcall, hresult⟩
  exact ⟨h.with_calls (h.books.runQueue hids e) rfl hgrows, hgrows⟩

/-- The session's own listener. -/
theorem replied (h : Reached cfg s) {message : JupyterMessage} (ename : Option String) {p : PendingRequest}
    (hp : s.calls.pendingRequests.get message.parentMsgId = some p)
    (htype : msgTypeName message.msgType = p.replyType) :
    s.calls.Grows (Own s (.message message ename))
      (s.calls.settleRequest message.parentMsgId p (Calls.replySettlement p message ename)) := by
  refine .settleRequest s.calls _ ?_
  unfold Calls.replySettlement
  split
  · trivial
  · trivial
  · obtain ⟨msgType, timeout, ws, hcall, hreply⟩ := h.books.entry _ _ (InsertionMap.mem_of_get hp)
    exact ⟨message, ename, msgType, timeout, ws, rfl, rfl, htype.trans hreply, hcall⟩

theorem message (h : Reached cfg s) (hids : FreshIds cfg.queue) (message : JupyterMessage)
    (ename : Option String) :
    Reached cfg { s with calls := s.calls.message cfg message ename } ∧
      s.calls.Grows (Own s (.message message ename)) (s.calls.message cfg message ename) := by
  set e : Event := .message message ename
  -- the queue's listener, after the session's own has made `calls` of the calls
  have hqueue : ∀ calls : Calls, calls.Books cfg → calls.all = s.calls.all → calls.queue = s.calls.queue →
      s.calls.Grows (Own s e) calls →
      Reached cfg { s with calls := calls.runQueue cfg (.message message) } ∧
        s.calls.Grows (Own s e) (calls.runQueue cfg (.message message)) := by
    intro calls hbooks hall hqueue hgrows
    have hgrows' : s.calls.Grows (Own s e) (calls.runQueue cfg (.message message)) :=
      hgrows.trans (Calls.grows_runQueue calls _ (fun _ _ => trivial) fun i kind ws ticket result hcall hresult =>
        ⟨.message message, kind, ws, ticket, rfl, hall ▸ hcall, hqueue ▸ hresult⟩)
    exact ⟨h.with_calls (hbooks.runQueue hids _) hall hgrows', hgrows'⟩
  unfold Calls.message
  dsimp only
  split
  · next p hp =>
    split
    · next htype =>
      exact hqueue _ (h.books.settleRequest (InsertionMap.mem_of_get hp) _) (Calls.all_settleRequest _ _ _ _)
        (Calls.queue_settle _ _ _) (h.replied ename hp htype)
    · exact hqueue _ h.books rfl rfl (.refl _)
  · exact hqueue _ h.books rfl rfl (.refl _)

/-- **Every event** that is caught. -/
theorem step (h : Reached cfg s) (hids : FreshIds cfg.queue) (hrequest : Function.Injective cfg.requestId)
    {e : Event} (hcaught : caught cfg s e = true) :
    Reached cfg (step cfg s e) ∧ s.calls.Grows (Own s e) (SessionCalls.step cfg s e).calls := by
  -- but for a message and the queue's timers, what is settled is rejected
  have hown : ∀ {t : State}, Reached cfg t ∧ s.calls.Grows Rejected t.calls →
      Reached cfg t ∧ s.calls.Grows (Own s e) t.calls := by
    refine fun ht => ⟨ht.1, ht.2.mono ?_⟩
    rintro i _ ⟨error, rfl⟩
    trivial
  have hcalls : ∀ {t : State}, Reached cfg t → t.calls = s.calls →
      Reached cfg t ∧ s.calls.Grows (Own s e) t.calls := fun ht heq => ⟨ht, heq ▸ .refl _⟩
  cases e with
  | call kind => exact ⟨h.call hcaught, .call s.calls kind _⟩
  | resume i => exact hown (h.resume hids hrequest hcaught)
  | restart => exact hown (h.restart hids)
  | connect p =>
    refine hcalls (h.connect hcaught) ?_
    rw [SessionCalls.step, SessionCalls.connect]
    split <;> rfl
  | restartFailed p error =>
    refine hcalls (h.restartFailed p error) ?_
    rw [SessionCalls.step, SessionCalls.restartFailed]
    split <;> rfl
  | stop => exact hown (h.stopWith hids _ hcaught)
  | disconnect => exact hown (h.stopWith hids _ hcaught)
  | kill => exact hown (h.stopWith hids _ hcaught)
  | ready ws =>
    refine hcalls (h.settleReady ws (by simp)) ?_
    rw [SessionCalls.step, SessionCalls.settleReady]
    split <;> rfl
  | failed ws =>
    refine hcalls (h.settleReady ws (by simp)) ?_
    rw [SessionCalls.step, SessionCalls.settleReady]
    split <;> rfl
  | closed ws => exact hown (h.closed hids hcaught)
  | message message ename => exact h.message hids message ename
  | requestError id error => exact hown (h.requestError id error)
  | kernelExit reason => exact hown (h.kernelExit hids hcaught)
  | requestTimeout id => exact hown (h.requestTimeout id)
  | timer e =>
    cases e with
    | timeout t => exact h.runQueue hids (.timeout t)
    | idleWaitExpired w => exact h.runQueue hids (.idleWaitExpired w)
    | interruptCompleted t => exact h.runQueue hids (.interruptCompleted t)
    | _ => exact ⟨h, .refl _⟩

end Reached

namespace Reached

variable {s : State}

/-- A message, or a timer of the queue, is nothing to the connection. -/
theorem conn_step {e : Event} {e' : ExecutionQueue.Event} (he : e.queue? = some e') :
    (SessionCalls.step cfg s e).conn = s.conn := by
  cases e with
  | message message ename => rfl
  | timer e => cases e <;> rfl
  | _ => cases he

theorem soundStep (h : Reached cfg s) (hids : FreshIds cfg.queue)
    (hrequest : Function.Injective cfg.requestId) {e : Event} (hcaught : caught cfg s e = true) :
    SoundStep s e (SessionCalls.step cfg s e) := by
  obtain ⟨h', hgrows⟩ := h.step hids hrequest hcaught
  refine ⟨hgrows.stays, hgrows.new, fun hended i how hmem => ?_⟩
  by_cases hunsettled : s.calls.settlements i = []
  · have hsent : ∀ {call : Call} {ws : Nat} {e' : ExecutionQueue.Event}, e.queue? = some e' →
        s.calls.all[i]? = some call → call.phase.ws? = some ws → False := by
      intro call ws e' he hcall hws
      rw [conn_step he] at hended
      cases (h.sent i call ws hcall hunsettled hws).2.symm.trans hended
    have hown := (hgrows.new i how hmem).resolve_left fun hold => by simp [hunsettled] at hold
    cases how with
    | rejected error => exact .inr ⟨error, rfl⟩
    | replied content =>
      obtain ⟨message, ename, msgType, timeout, ws, rfl, -, -, hcall⟩ := hown
      exact (hsent rfl hcall rfl).elim
    | executed result =>
      obtain ⟨e', kind, ws, ticket, he, hcall, -⟩ := hown
      exact (hsent he hcall rfl).elim
  · -- it was settled, and is not settled twice
    obtain ⟨how', hmem'⟩ := List.exists_mem_of_ne_nil _ hunsettled
    obtain ⟨how'', heq⟩ := List.length_eq_one_iff.mp
      (Nat.le_antisymm (h'.books.once i) (List.length_pos_of_mem hmem))
    have hstays := hgrows.stays i how' hmem'
    rw [heq, List.mem_singleton] at hmem hstays
    rw [hmem, ← hstays]
    exact .inl hmem'

end Reached

/-! ## The theorem -/

/-- `randomUUID()` gives no id twice. -/
theorem freshIds_queue (hexecute : Function.Injective cfg.executeId) : FreshIds cfg.queue := by
  intro n n' x x' msgId _ hn hn'
  have hid : ∀ {n : Nat} {x : ExecutionQueue.QueuedExecution}, cfg.queue.addon n x = .returned msgId →
      cfg.executeId n = msgId := by
    intro n x h
    unfold Config.queue at h
    dsimp only at h
    split at h
    · cases h
    · exact ExecutionQueue.SendResult.returned.inj h
  exact hexecute ((hid hn).trans (hid hn').symm)

theorem reached (hids : FreshIds cfg.queue) (hrequest : Function.Injective cfg.requestId) {s : State}
    (hs : ((system cfg).when fun s e => caught cfg s e = true).Reachable s) : Reached cfg s :=
  System.invariant_ofFn reached_init (fun _ _ h hcaught => (h.step hids hrequest hcaught).1) hs

/-- **The calls of a session settle**, in every run that leaves nothing uncaught: no promise is settled
twice, something holds each that is not settled, and each step settles with the call's own reply or
with an error; once the session has ended, what is not settled is rejected by its next microtask. -/
theorem calls_settle (hexecute : Function.Injective cfg.executeId)
    (hrequest : Function.Injective cfg.requestId) {s : State}
    (hs : ((system cfg).when fun s e => caught cfg s e = true).Reachable s) :
    Sound cfg s ∧ ∀ e, caught cfg s e = true → SoundStep s e (step cfg s e) := by
  have hids := freshIds_queue hexecute
  have h := reached hids hrequest hs
  exact ⟨h.sound, fun _ hcaught => h.soundStep hids hrequest hcaught⟩

/-- Executions `"e"`, `"ee"`, …, and requests `"r"`, `"rr"`, … -/
def counting : Config where
  executeId n := String.ofList (List.replicate (n + 1) 'e')
  requestId n := String.ofList (List.replicate (n + 1) 'r')

theorem replicate_injective (a : Char) :
    Function.Injective fun n => String.ofList (List.replicate (n + 1) a) := by
  intro n n' heq
  have hlength := congrArg String.length heq
  simpa using hlength

/-- A request is answered, the kernel exits under an execution, another is refused, and after a
restart a third is running when the session is stopped. -/
def restarted : List Event :=
  [.call (.execute "1" {}), .call (.request "history_request" none), .ready 0, .resume 0, .resume 1,
    .message { msgType := .other "history_reply", parentMsgId := "r" } none, .kernelExit "killed",
    .call (.execute "2" {}), .resume 2, .restart, .connect 1, .call (.execute "3" {}), .ready 1, .resume 3,
    .stop]

theorem calls_settle_restarted :
    let s := restarted.foldl (step counting) {}
    Sound counting s ∧ s.calls.settlements 0 = [.rejected ExecutionQueue.CLEARED_MESSAGE] ∧
      s.calls.settlements 1 = [.replied {}] ∧ s.calls.settlements 2 = [.rejected (endedMessage "killed")] ∧
      s.calls.settlements 3 = [.rejected ExecutionQueue.CLEARED_MESSAGE] := by
  have hall : System.allSteps (step counting) (caught counting) {} restarted = true := by decide +kernel
  refine ⟨(calls_settle (replicate_injective 'e') (replicate_injective 'r')
    (System.reachable_of_allSteps hall)).1, ?_⟩
  decide +kernel

/-! ## What is not caught -/

/-- An ended session keeps a call that no microtask rejects. -/
theorem not_sound {s : State} {i : Nat} (hended : s.conn.ended = true) (hi : i < s.calls.all.length)
    (hunsettled : s.calls.settlements i = []) (hresume : (resume cfg s i).calls.settlements i = []) :
    ¬ Sound cfg s := by
  intro h
  obtain ⟨error, heq⟩ := h.ended hended i hi hunsettled
  cases heq.symm.trans hresume

/-- `execute()` of a session that was stopped, without a timeout. -/
def executeAfterStop : List Event :=
  [.ready 0, .stop, .call (.execute "1" { timeout := some 0 }), .resume 0]

/-- `execute()`, and `stop()` before its microtask. -/
def executeThenStop : List Event :=
  [.ready 0, .call (.execute "1" { timeout := some 0 }), .stop, .resume 0]

/-- `request()` of a session whose kernel has ended. -/
def requestAfterExit : List Event :=
  [.ready 0, .kernelExit "killed", .call (.request "history_request" none), .resume 0]

/-- `execute()`, and `restart()` before its microtask: it goes to the kernel that is replaced. -/
def executeThenRestart : List Event :=
  [.ready 0, .call (.execute "1" { timeout := some 0 }), .restart, .resume 0, .connect 1, .ready 1]

/-- A run that leaves a call that is not settled, and that nothing will reject. -/
def Strands (es : List Event) : Prop :=
  (system counting).Reachable (es.foldl (step counting) {}) ∧ ¬ Sound counting (es.foldl (step counting) {})

/-- **The calls that are stranded**: after `stop()`, over it, after a `kernelExit`, and over a
`restart()`. -/
theorem calls_are_stranded :
    Strands executeAfterStop ∧ Strands executeThenStop ∧ Strands requestAfterExit ∧
      Strands executeThenRestart := by
  have hreachable := System.reachable_foldl ({} : State) (step counting)
  refine ⟨⟨hreachable _, ?_⟩, ⟨hreachable _, ?_⟩, ⟨hreachable _, ?_⟩, ⟨hreachable _, ?_⟩⟩
  · exact not_sound (i := 0) (by decide +kernel) (by decide +kernel) (by decide +kernel) (by decide +kernel)
  · exact not_sound (i := 0) (by decide +kernel) (by decide +kernel) (by decide +kernel) (by decide +kernel)
  · exact not_sound (i := 0) (by decide +kernel) (by decide +kernel) (by decide +kernel) (by decide +kernel)
  · -- it was sent over the socket the restart has replaced
    intro h
    have hheld := h.held 0 ⟨.execute "1" { timeout := some 0 }, .queued 0 0⟩ (by decide +kernel) (by decide +kernel)
    exact absurd hheld.1 (by decide +kernel)

end Jovian.SessionCalls
