import Jovian.Lib.Transition
import Mathlib.Data.List.Basic

/-!
# ExecutionState — whether the session's kernel is busy

`Session.executionState` is a value beside `busyRequests`, the requests reported busy: status
messages change both, and the ends of a kernel only the requests (`closeAllComms`).

* **`busy_iff`** — the state is `busy` exactly while a request of the session's kernel is, in the
  runs in which no kernel ends or is replaced while it has one.
-/

namespace Jovian.KernelState

inductive ExecutionState where
  | busy
  | idle
  | starting
deriving DecidableEq

/-! ## The session -/

/-- What `Session` has of it, as long as it is not stopped. -/
structure Session where
  busyRequests : List String := []
  kernelExecutionState : Option ExecutionState := none
  /-- Why the kernel is gone. -/
  dead : Option String := none
deriving DecidableEq

namespace Session

/-- `none`: no `execution_state` in the message. -/
def trackExecutionState (s : Session) (parentMsgId : String) (state : Option ExecutionState) :
    Session :=
  match state with
  | some .busy =>
    { s with
      busyRequests := s.busyRequests.insert parentMsgId
      kernelExecutionState := some .busy }
  | some .idle =>
    let busyRequests := s.busyRequests.filter (· ≠ parentMsgId)
    { s with
      busyRequests
      kernelExecutionState := if busyRequests ≠ [] then some .busy else some .idle }
  | state => { s with kernelExecutionState := state }

/-- What `closeAllComms` does besides closing the comms. -/
def closeAllComms (s : Session) : Session := { s with busyRequests := [] }

end Session

/-! ## The session and its kernels -/

/-- A status message: the kernel it is from, the request it is about. -/
structure Report where
  kernel : Nat
  parentMsgId : String
  state : ExecutionState
deriving DecidableEq

inductive Event where
  | status (kernel : Nat) (parentMsgId : String) (state : Option ExecutionState)
  | kernelExit (reason : String)
  | connectionLost
  /-- `restart()` is called. -/
  | restart
  /-- The restarted kernel's socket takes the old one's place. -/
  | connected
deriving DecidableEq

structure World where
  session : Session := {}
  /-- The kernel the session is connected to. -/
  kernel : Option Nat := some 0
  /-- How many there were. -/
  kernels : Nat := 1
  restarting : Bool := false
  /-- What was reported, the latest first. -/
  reports : List Report := []
deriving DecidableEq

def step (w : World) : Event → World
  | .status kernel parentMsgId state =>
    { w with
      session := w.session.trackExecutionState parentMsgId state
      reports := (state.map fun state => ⟨kernel, parentMsgId, state⟩).toList ++ w.reports }
  | .kernelExit reason =>
    { w with session := { w.session with dead := some reason }.closeAllComms, kernel := none }
  | .connectionLost =>
    { w with
      session := { w.session with dead := some "the connection to the supervisor was lost" }.closeAllComms
      kernel := none }
  | .restart =>
    { w with session := { w.session.closeAllComms with dead := none }, restarting := true }
  | .connected =>
    if w.restarting then
      { w with kernel := some w.kernels, kernels := w.kernels + 1, restarting := false }
    else w

def machine : Transition.System World Event := .ofFn {} step

/-- What the kernel last reported of the request, busy or idle. -/
def lastReport (reports : List Report) (kernel : Nat) (parentMsgId : String) : Option ExecutionState :=
  (reports.find? fun r => r.kernel = kernel ∧ r.parentMsgId = parentMsgId ∧ r.state ≠ .starting).map
    Report.state

/-- The requests of the session's kernel that were reported busy, and not idle since. -/
def outstanding (w : World) : List String :=
  match w.kernel with
  | none => []
  | some kernel => (w.reports.map Report.parentMsgId).filter fun p =>
      lastReport w.reports kernel p = some .busy

/-- The messages are of the session's kernel, which has no request when it ends or is replaced. -/
def Calm (w : World) : Event → Bool
  | .status kernel _ state =>
    w.kernel = some kernel ∧ (state = some .busy ∨ state = some .idle ∨ outstanding w = [])
  | _ => outstanding w = []

/-! ## What is outstanding -/

section Outstanding

variable {w : World} {kernel k : Nat} {p q : String} {state : ExecutionState} {reports : List Report}

theorem lastReport_cons (r : Report) : lastReport (r :: reports) k p =
    if r.kernel = k ∧ r.parentMsgId = p ∧ r.state ≠ .starting then some r.state
    else lastReport reports k p := by
  simp only [lastReport, List.find?_cons]
  split_ifs with h
  · simp [h]
  · simp [h]

theorem lastReport_new (hnew : ∀ r ∈ reports, r.kernel < k) : lastReport reports k p = none := by
  rw [lastReport, Option.map_eq_none_iff, List.find?_eq_none]
  intro r hr
  have hne : r.kernel ≠ k := Nat.ne_of_lt (hnew r hr)
  simp [hne]

theorem mem_outstanding_iff (hkernel : w.kernel = some k) :
    p ∈ outstanding w ↔ lastReport w.reports k p = some .busy := by
  rw [outstanding, hkernel]
  simp only [List.mem_filter, decide_eq_true_eq, and_iff_right_iff_imp]
  intro hlast
  obtain ⟨r, hr, -⟩ := Option.map_eq_some_iff.mp hlast
  have hp := List.find?_some hr
  simp only [decide_eq_true_eq] at hp
  exact List.mem_map.mpr ⟨r, List.mem_of_find?_eq_some hr, hp.2.1⟩

theorem outstanding_new (hkernel : w.kernel = some k) (hnew : ∀ r ∈ w.reports, r.kernel < k) :
    outstanding w = [] := by
  rw [List.eq_nil_iff_forall_not_mem]
  intro p hp
  rw [mem_outstanding_iff hkernel, lastReport_new hnew] at hp
  cases hp

/-- A message is about its own request. -/
theorem mem_outstanding_status (hkernel : w.kernel = some k) :
    q ∈ outstanding (step w (.status k p (some state))) ↔
      if q = p ∧ state ≠ .starting then state = .busy else q ∈ outstanding w := by
  have hnext : (step w (.status k p (some state))).kernel = some k := hkernel
  rw [mem_outstanding_iff hnext, mem_outstanding_iff hkernel]
  simp only [step, Option.map_some, Option.toList_some, List.singleton_append, lastReport_cons,
    true_and, eq_comm (a := p)]
  split_ifs <;> simp

theorem outstanding_of_mem_iff {requests : List String} (h : ∀ p, p ∈ requests ↔ p ∈ outstanding w) :
    requests = [] ↔ outstanding w = [] := by
  simp only [List.eq_nil_iff_forall_not_mem, h]

end Outstanding

/-! ## Calm runs -/

/-- The session's books are right. -/
structure Books (w : World) : Prop where
  requests : ∀ p, p ∈ w.session.busyRequests ↔ p ∈ outstanding w
  state : w.session.kernelExecutionState = some .busy ↔ outstanding w ≠ []
  reports : ∀ r ∈ w.reports, r.kernel < w.kernels
  kernel : ∀ k, w.kernel = some k → k < w.kernels

section Calm

variable {w : World} {k : Nat} {p : String}

theorem Books.busy (h : Books w) (hkernel : w.kernel = some k) :
    Books (step w (.status k p (some .busy))) := by
  have hmem : ∀ q, q ∈ outstanding (step w (.status k p (some .busy))) ↔ q = p ∨ q ∈ outstanding w := by
    intro q
    rw [mem_outstanding_status hkernel]
    by_cases hq : q = p <;> simp [hq]
  refine ⟨fun q => ?_, ?_, ?_, h.kernel⟩
  · rw [hmem, ← h.requests]
    exact List.mem_insert_iff
  · refine iff_of_true rfl (List.ne_nil_of_mem ((hmem p).mpr (.inl rfl)))
  · intro r hr
    rcases List.mem_cons.mp hr with rfl | hr
    · exact h.kernel k hkernel
    · exact h.reports r hr

theorem Books.idle (h : Books w) (hkernel : w.kernel = some k) :
    Books (step w (.status k p (some .idle))) := by
  have hmem : ∀ q, q ∈ outstanding (step w (.status k p (some .idle))) ↔ q ≠ p ∧ q ∈ outstanding w := by
    intro q
    rw [mem_outstanding_status hkernel]
    by_cases hq : q = p <;> simp [hq]
  have hrequests : ∀ q, q ∈ w.session.busyRequests.filter (· ≠ p) ↔
      q ∈ outstanding (step w (.status k p (some .idle))) := by
    intro q
    rw [hmem, List.mem_filter, h.requests, decide_eq_true_eq, and_comm]
  refine ⟨hrequests, ?_, ?_, h.kernel⟩
  · rw [Ne, ← outstanding_of_mem_iff hrequests]
    simp only [step, Session.trackExecutionState]
    split_ifs with hleft
    · exact iff_of_true rfl hleft
    · exact iff_of_false (fun heq => by cases heq) hleft
  · intro r hr
    rcases List.mem_cons.mp hr with rfl | hr
    · exact h.kernel k hkernel
    · exact h.reports r hr

/-- The start of a kernel, or a message without a state. -/
theorem Books.other (h : Books w) (hkernel : w.kernel = some k) (hnone : outstanding w = [])
    {state : Option ExecutionState} (hbusy : state ≠ some .busy) (hidle : state ≠ some .idle) :
    Books (step w (.status k p state)) := by
  have hstep : (step w (.status k p state)).session =
      { w.session with kernelExecutionState := state } := by
    cases state with
    | none => rfl
    | some state => cases state with
      | busy => exact absurd rfl hbusy
      | idle => exact absurd rfl hidle
      | starting => rfl
  have hsame : outstanding (step w (.status k p state)) = [] := by
    rw [List.eq_nil_iff_forall_not_mem] at hnone ⊢
    intro q
    cases state with
    | none => exact hnone q
    | some state =>
      rw [mem_outstanding_status hkernel]
      split_ifs
      · exact fun heq => hbusy (congrArg some heq)
      · exact hnone q
  refine ⟨fun q => ?_, ?_, ?_, h.kernel⟩
  · rw [hstep, hsame, ← hnone]
    exact h.requests q
  · rw [hstep, hsame]
    simp [hbusy]
  · intro r hr
    rcases List.mem_append.mp hr with hr | hr
    · obtain ⟨st, -, rfl⟩ := Option.map_eq_some_iff.mp (Option.mem_toList.mp hr)
      exact h.kernel k hkernel
    · exact h.reports r hr

theorem Books.step (h : Books w) {e : Event} (hcalm : Calm w e = true) : Books (step w e) := by
  have hstate : outstanding w = [] → w.session.kernelExecutionState ≠ some .busy := by
    intro hnone hbusy
    exact h.state.mp hbusy hnone
  cases e with
  | status kernel p state =>
    obtain ⟨hkernel, hstate⟩ := of_decide_eq_true hcalm
    by_cases hbusy : state = some .busy
    · subst hbusy
      exact h.busy hkernel
    · by_cases hidle : state = some .idle
      · subst hidle
        exact h.idle hkernel
      · have hnone := (hstate.resolve_left hbusy).resolve_left hidle
        exact h.other hkernel hnone hbusy hidle
  | kernelExit reason | connectionLost =>
    have hnone : outstanding w = [] := of_decide_eq_true hcalm
    refine ⟨fun p => ?_, iff_of_false (hstate hnone) (not_not.mpr rfl), h.reports, nofun⟩
    exact iff_of_false List.not_mem_nil List.not_mem_nil
  | restart =>
    have hnone : outstanding w = [] := of_decide_eq_true hcalm
    refine ⟨fun p => ?_, iff_of_false (hstate hnone) (not_not.mpr hnone), h.reports, h.kernel⟩
    exact iff_of_false List.not_mem_nil (hnone ▸ List.not_mem_nil)
  | connected =>
    have hnone : outstanding w = [] := of_decide_eq_true hcalm
    unfold KernelState.step
    dsimp only
    split
    · have hnew : outstanding { w with
          kernel := some w.kernels, kernels := w.kernels + 1, restarting := false } = [] :=
        outstanding_new rfl h.reports
      refine ⟨fun p => ?_, iff_of_false (hstate hnone) (not_not.mpr hnew), ?_, ?_⟩
      · rw [hnew, ← hnone]
        exact h.requests p
      · exact fun r hr => Nat.lt_trans (h.reports r hr) (Nat.lt_succ_self _)
      · rintro k hk
        obtain rfl := Option.some.inj hk
        exact Nat.lt_succ_self _
    · exact h

theorem books_init : Books {} where
  requests _ := iff_of_false List.not_mem_nil List.not_mem_nil
  state := iff_of_false nofun (not_not.mpr rfl)
  reports := nofun
  kernel _ hk := Option.some.inj hk ▸ Nat.zero_lt_one

/-- **When the state is right**: where no kernel ends or is replaced while it has a request. -/
theorem busy_iff (h : (machine.when fun w e => Calm w e = true).Reachable w) :
    w.session.kernelExecutionState = some .busy ↔ outstanding w ≠ [] := by
  have hbooks : Books w := by
    refine Transition.System.invariant_ofFn books_init ?_ h
    exact fun w e hw hcalm => hw.step hcalm
  exact hbooks.state

def calmEvents : List Event :=
  [.status 0 "execute" (some .busy), .status 0 "interrupt" (some .busy),
    .status 0 "interrupt" (some .idle), .status 0 "execute" (some .idle), .restart, .connected,
    .status 1 "execute" (some .busy)]

theorem busy_iff_calmEvents :
    (calmEvents.foldl step {}).session.kernelExecutionState = some .busy ↔
      outstanding (calmEvents.foldl step {}) ≠ [] :=
  busy_iff (Transition.System.reachable_of_allSteps (by decide))

/-- A kernel that ends with a request leaves the state busy. -/
theorem ended_while_busy (h : Books w) (hbusy : outstanding w ≠ []) {e : Event}
    (he : e = .connectionLost ∨ ∃ reason, e = .kernelExit reason) :
    (step w e).session.kernelExecutionState = some .busy ∧ outstanding (step w e) = [] := by
  rcases he with rfl | ⟨reason, rfl⟩
  · exact ⟨h.state.mpr hbusy, rfl⟩
  · exact ⟨h.state.mpr hbusy, rfl⟩

/-- And so does one that is replaced. -/
theorem replaced_while_busy (h : Books w) (hbusy : outstanding w ≠ []) :
    (step (step w .restart) .connected).session.kernelExecutionState = some .busy ∧
      outstanding (step (step w .restart) .connected) = [] :=
  ⟨h.state.mpr hbusy, outstanding_new rfl h.reports⟩

/-- **Busy for ever**: a session that is restarted while a cell runs, and one whose kernel ends. -/
theorem restarted_while_busy :
    (machine.Reachable ([.status 0 "execute" (some .busy), .restart, .connected].foldl step {}) ∧
      ([.status 0 "execute" (some .busy), .restart, .connected].foldl step
        {}).session.kernelExecutionState = some .busy ∧
      outstanding ([.status 0 "execute" (some .busy), .restart, .connected].foldl step {}) = []) ∧
    machine.Reachable ([.status 0 "execute" (some .busy), .kernelExit "killed"].foldl step {}) ∧
      ([.status 0 "execute" (some .busy), .kernelExit "killed"].foldl step
        {}).session.kernelExecutionState = some .busy ∧
      outstanding ([.status 0 "execute" (some .busy), .kernelExit "killed"].foldl step {}) = [] :=
  ⟨⟨Transition.System.reachable_foldl _ _ _, by decide, by decide⟩,
    Transition.System.reachable_foldl _ _ _, by decide, by decide⟩

end Calm

end Jovian.KernelState
