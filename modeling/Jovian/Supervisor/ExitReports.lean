import Jovian.Supervisor.Sessions
import Mathlib.Data.List.Count

/-!
# Jovian — one `kernelExit` for a launch, and none for a requested one

Three threads report a kernel's end or prevent it: the poll loop, the heartbeat's listener,
and a stop, which sets `expectingExit`. Each checks what the others have stored and then acts,
with no lock in between; the listener does not look at `expectingExit` at all, and the poll
loop does not look at the status. `WellReported` says what should come of it.

* **`one_exit_report`** — in every run in which none acts on a check that another has already
  overtaken (`guarded`), every launch has at most one `kernelExit`, and none after a stop of
  it has set `expectingExit`.
* `stuck_then_dead_reported_twice` — a kernel that hangs and later dies is reported twice.
-/

namespace Jovian.Registry

variable {ι : Type} (r : Requests ι) [DecidableEq ι]

/-! ## What is promised -/

structure WellReported (log : List Note) : Prop where
  once : ∀ i, log.count (.kernelExit i) ≤ 1
  /-- Never sent for a requested stop or restart. -/
  unrequested : log.Pairwise fun n n' => ∀ i, n = .expecting i → n' ≠ .kernelExit i

namespace Session

variable (x : Session ι)

/-- The poll loop is past its check of `expectingExit`, and has not reported yet. -/
def pollReports : Bool :=
  x.pollThread = .storeCrashed || x.pollThread = .emitExit

/-- The listener is past its check of the status, and has not reported yet. -/
def beatReports : Bool :=
  x.heartbeat = .passed || x.heartbeat = .report

def isOver : Bool :=
  x.status = .crashed || x.status = .stopped

end Session

/-- No thread goes past its check over what another has done: the listener not over a stop,
or a poll loop about to report; the poll loop not over the listener; a stop not over either. -/
def guarded (s : State ι) : Event → Bool
  | .heartbeat i =>
    (s.sessions i).all fun x => x.heartbeat ≠ .called || x.isOver ||
      (!x.expectingExit && x.pollThread ≠ .storeCrashed)
  | .poll i _ =>
    (s.sessions i).all fun x => x.pollThread ≠ .checkExpecting || x.expectingExit ||
      (!x.beatReports && x.heartbeat ≠ .reported)
  | .op o _ =>
    match s.ops o with
    | .stopping .expectExit i => (s.sessions i).all fun x => !x.pollReports && !x.beatReports
    | _ => true
  | .die _ => true

/-! ## The invariant of one session -/

/-- A session with `exits` reports in the log; `asked` says that a stop of it is there too. -/
structure Session.Fair (x : Session ι) (exits : Nat) (asked : Prop) : Prop where
  /-- A report is in the log or on its way there, once. -/
  once : exits + x.pollReports.toNat + x.beatReports.toNat ≤ 1
  flagged : asked → x.expectingExit = true
  expected : x.expectingExit = true → x.pollReports = false ∧ x.beatReports = false
  /-- Only these two threads report. -/
  first : x.pollThread ≠ .stopPolling → x.pollThread ≠ .ended → x.heartbeat ≠ .reported →
    exits = 0
  /-- The listener will find that the poll loop has reported. -/
  marked : x.heartbeat = .silent ∨ x.heartbeat = .listening ∨ x.heartbeat = .called →
    exits ≠ 0 ∨ x.pollThread = .emitExit → x.isOver = true

namespace Session.Fair

variable {x : Session ι} {exits : Nat} {asked : Prop}

omit [DecidableEq ι]

theorem init (id : ι) : Fair { id } 0 False := by
  constructor <;> simp [pollReports, beatReports]

/-- What the poll thread adds to the log. -/
theorem poll (h : x.Fair exits asked) (answered : Bool)
    (hguard : x.pollThread = .checkExpecting → x.expectingExit = false →
      x.beatReports = false ∧ x.heartbeat ≠ .reported) :
    (x.poll answered).Fair (exits + if x.pollThread = .emitExit then 1 else 0) asked ∧
      (x.pollThread = .emitExit → ¬ asked) := by
  have honce := h.once
  have hflagged := h.flagged
  have hexpected := h.expected
  have hfirst := h.first
  have hmarked := h.marked
  refine ⟨?_, fun hemit hasked => ?_⟩
  · unfold Session.poll
    cases hpc : x.pollThread with
    | checkExpecting =>
      -- past the check only if no stop has asked, and the listener has nothing to say
      cases hexpecting : x.expectingExit with
      | true => constructor <;> simp_all [pollReports, beatReports, isOver]
      | false =>
        obtain ⟨hbeat, hreported⟩ := hguard hpc hexpecting
        constructor <;> simp_all [pollReports, beatReports, isOver]
    | checkPolling =>
      cases hpolling : x.polling <;> constructor <;>
        simp_all [pollReports, beatReports, isOver]
    | drain exited =>
      cases exited <;> constructor <;> simp_all [pollReports, beatReports, isOver]
    | _ => constructor <;> simp_all [pollReports, beatReports, isOver]
  · have := (hexpected (hflagged hasked)).1
    simp [pollReports, hemit] at this

/-- What the heartbeat thread adds to the log. -/
theorem beat (h : x.Fair exits asked)
    (hguard : x.heartbeat = .called → x.isOver = false →
      x.expectingExit = false ∧ x.pollThread ≠ .storeCrashed) :
    x.beat.Fair (exits + if x.heartbeat = .report then 1 else 0) asked ∧
      (x.heartbeat = .report → ¬ asked) := by
  have honce := h.once
  have hflagged := h.flagged
  have hexpected := h.expected
  have hfirst := h.first
  have hmarked := h.marked
  refine ⟨?_, fun hreport hasked => ?_⟩
  · unfold Session.beat
    cases hpc : x.heartbeat with
    | called =>
      cases hover : x.isOver with
      | true =>
        have hended : (x.status = .crashed || x.status = .stopped) = true := hover
        simp only [hended, if_true]
        constructor <;> simp_all [pollReports, beatReports]
      | false =>
        -- past the check: nobody has reported, and nobody else is about to
        have hpassed : (x.status = .crashed || x.status = .stopped) = false := hover
        obtain ⟨hexpecting, hthread⟩ := hguard hpc hover
        have hquiet := hmarked (.inr (.inr hpc))
        simp only [hpassed, Bool.false_eq_true, if_false]
        constructor <;> simp_all [pollReports, beatReports]
    | _ => constructor <;> simp_all [pollReports, beatReports, isOver]
  · have := (hexpected (hflagged hasked)).2
    simp [beatReports, hreport] at this

/-- A stop that nobody's report is under way against. -/
theorem expect (h : x.Fair exits asked) (hpoll : x.pollReports = false)
    (hbeat : x.beatReports = false) :
    Fair { x with expectingExit := true, answeredShutdown := false } exits True where
  once := h.once
  flagged _ := rfl
  expected _ := ⟨hpoll, hbeat⟩
  first := h.first
  marked := h.marked

/-- The other steps of an operation neither report nor ask. -/
theorem op {s : State ι} {i o : Nat} {choice : Bool} {y : Session ι} (h : x.Fair exits asked)
    (hbegun : ∀ o stage, s.ops o = .creating stage i →
      x.pollThread = .notStarted ∧ (stage.early = true → x.heartbeat = .silent))
    (hasks : s.ops o ≠ .stopping .expectExit i) (hchange : Change s i x (.op o choice) y) :
    y.Fair exits asked := by
  have honce := h.once
  have hflagged := h.flagged
  have hexpected := h.expected
  have hfirst := h.first
  have hmarked := h.marked
  cases hchange with
  | same => exact h
  | expect _ _ ho => exact absurd ho hasks
  | answer =>
    unfold answerStop
    split
    · cases choice <;> constructor <;> simp_all [pollReports, beatReports, isOver]
    · exact h
  | listen _ _ ho =>
    obtain ⟨hthread, hsilent⟩ := hbegun o _ ho
    have hsilent := hsilent rfl
    constructor <;> simp_all [pollReports, beatReports, isOver]
  | setReady _ _ ho | startPoll _ _ ho =>
    -- nobody has reported a session whose poll thread has not started, or its listener has
    obtain ⟨hthread, -⟩ := hbegun o _ ho
    constructor <;> simp_all [pollReports, beatReports, isOver] <;> grind
  | setStopped => constructor <;> simp_all [pollReports, beatReports, isOver]
  | unpoll | kill | drop | setPolling => exact ⟨honce, hflagged, hexpected, hfirst, hmarked⟩

end Session.Fair

/-! ## What a step adds to the log -/

def asks : OpPc → List Note
  | .stopping .expectExit i => [.expecting i]
  | _ => []

def notes (s : State ι) : Event → List Note
  | .op o _ => asks (s.ops o)
  | .poll i _ => if (s.sessions i).any (·.pollThread = .emitExit) then [.kernelExit i] else []
  | .heartbeat i => if (s.sessions i).any (·.heartbeat = .report) then [.kernelExit i] else []
  | .die _ => []

variable {r} {s : State ι}

theorem log_step (e : Event) : (step r s e).log = s.log ++ notes s e := by
  cases e with
  | op o choice =>
    show (opStep r s o choice).log = s.log ++ asks (s.ops o)
    unfold opStep
    cases hpc : s.ops o with
    | stopping stage i =>
      cases stage with
      | sampleAlive | grace | join =>
        simp only [stopStep]
        split <;> simp [asks]
      | _ => simp [stopStep, asks]
    | creating stage j =>
      cases stage with
      | awaitRegistration | startClient =>
        simp only [createStep]
        split <;> simp [asks]
      | _ => simp [createStep, asks]
    | idle | unlock | restartErase | returned => simp [asks]
    | _ =>
      simp only
      split <;> simp [asks]
  | poll i answered =>
    simp only [step, pollStep, notes]
    split <;> simp
  | heartbeat i =>
    simp only [step, heartbeatStep, notes]
    split <;> simp
  | die i => simp [step, notes]

theorem mem_asks {pc : OpPc} {n : Note} (h : n ∈ asks pc) :
    ∃ i, pc = .stopping .expectExit i ∧ n = .expecting i := by
  unfold asks at h
  split at h
  · exact ⟨_, rfl, List.mem_singleton.mp h⟩
  · cases h

omit [DecidableEq ι] in
theorem mem_poll_notes {j : Nat} {answered : Bool} {n : Note}
    (h : n ∈ notes s (.poll j answered)) : n = .kernelExit j := by
  simp only [notes] at h
  split at h
  · exact List.mem_singleton.mp h
  · cases h

omit [DecidableEq ι] in
theorem mem_beat_notes {j : Nat} {n : Note} (h : n ∈ notes s (.heartbeat j)) :
    n = .kernelExit j := by
  simp only [notes] at h
  split at h
  · exact List.mem_singleton.mp h
  · cases h

/-! ## Every guarded run -/

structure Reporting (s : State ι) : Prop where
  unmade : ∀ i, s.sessions i = none → s.log.count (.kernelExit i) = 0 ∧ .expecting i ∉ s.log
  fair : ∀ i x, s.sessions i = some x → x.Fair (s.log.count (.kernelExit i)) (.expecting i ∈ s.log)
  ordered : s.log.Pairwise fun n n' => ∀ i, n = .expecting i → n' ≠ .kernelExit i

/-- The session a stop is about. -/
theorem stopping_session (hs : (system r).Reachable s) {o i : Nat} {stage : StopStage}
    (hpc : s.ops o = .stopping stage i) : ∃ x, s.sessions i = some x := by
  have hsound := sound r s hs
  have hregistered := hsound.stopping o i (by simp [custodyOf, hpc, phaseOf])
  obtain ⟨x, hx, -⟩ := Option.map_eq_some_iff.mp (hsound.owner_registry _ _ hregistered)
  exact ⟨x, hx⟩

omit [DecidableEq ι] in
/-- What is added about others leaves a session's account as it is. -/
theorem Session.Fair.aside {x : Session ι} {i : Nat} {log ns : List Note}
    (h : x.Fair (log.count (.kernelExit i)) (.expecting i ∈ log))
    (hns : ∀ n ∈ ns, n ≠ .kernelExit i ∧ n ≠ .expecting i) :
    x.Fair ((log ++ ns).count (.kernelExit i)) (.expecting i ∈ log ++ ns) := by
  have hcount : ns.count (.kernelExit i) = 0 :=
    List.count_eq_zero.mpr fun hmem => (hns _ hmem).1 rfl
  have hmem : (.expecting i ∈ log ++ ns) = (.expecting i ∈ log) := by
    simp only [List.mem_append, eq_iff_iff, or_iff_left_iff_imp]
    exact fun hmem => absurd rfl (hns _ hmem).2
  rw [List.count_append, hcount, hmem]
  exact h

/-- A session is there after the step and fair with what it adds, of which no report is one of a
stop. -/
def FairAfter (r : Requests ι) (s : State ι) (e : Event) (i : Nat) : Prop :=
  ∃ y, (step r s e).sessions i = some y ∧
    y.Fair ((s.log ++ notes s e).count (.kernelExit i)) (.expecting i ∈ s.log ++ notes s e) ∧
    (.kernelExit i ∈ notes s e → .expecting i ∉ s.log)

variable {i : Nat} {x : Session ι}

/-- A thread of another session leaves this one as it is. -/
theorem Session.Fair.other
    (h : x.Fair (s.log.count (.kernelExit i)) (.expecting i ∈ s.log)) {e : Event} {j : Nat}
    (hij : i ≠ j) (hx : (step r s e).sessions i = some x)
    (hnotes : ∀ n ∈ notes s e, n = .kernelExit j) : FairAfter r s e i := by
  refine ⟨x, hx, h.aside fun n hn => ?_, fun hmem => ?_⟩
  · rw [hnotes n hn]
    exact ⟨fun heq => hij (Note.kernelExit.inj heq).symm, by simp⟩
  · exact absurd (Note.kernelExit.inj (hnotes _ hmem)) hij

theorem fair_op (hs : (system r).Reachable s) {o : Nat} {choice : Bool}
    (hfair : x.Fair (s.log.count (.kernelExit i)) (.expecting i ∈ s.log))
    (hguarded : guarded s (.op o choice) = true) (hx : s.sessions i = some x) :
    FairAfter r s (.op o choice) i := by
  have hbegun : ∀ o stage, s.ops o = .creating stage i →
      x.pollThread = .notStarted ∧ (stage.early = true → x.heartbeat = .silent) :=
    fun o stage ho => unbegun r s hs ho hx
  have hexit : .kernelExit i ∉ notes s (.op o choice) := fun hmem => by
    obtain ⟨k, -, heq⟩ := mem_asks hmem
    cases heq
  by_cases hasks : s.ops o = .stopping .expectExit i
  · have hquiet : x.pollReports = false ∧ x.beatReports = false := by
      simpa [guarded, hasks, hx] using hguarded
    refine ⟨{ x with expectingExit := true, answeredShutdown := false },
      by simp [step, opStep, hasks, stopStep, hx], ?_, fun hmem => absurd hmem hexit⟩
    have hexpect := hfair.expect hquiet.1 hquiet.2
    simpa [notes, asks, hasks, List.count_append] using hexpect
  · obtain ⟨y, hy, hchange⟩ := change (r := r) (numbered r s hs) hx (.op o choice)
    refine ⟨y, hy, ?_, fun hmem => absurd hmem hexit⟩
    refine (hfair.op hbegun hasks hchange).aside fun n hn => ?_
    obtain ⟨k, hk, rfl⟩ := mem_asks hn
    refine ⟨by simp, fun heq => hasks ?_⟩
    rw [hk, Note.expecting.inj heq]

theorem fair_poll {j : Nat} {answered : Bool}
    (hfair : x.Fair (s.log.count (.kernelExit i)) (.expecting i ∈ s.log))
    (hguarded : guarded s (.poll j answered) = true) (hx : s.sessions i = some x) :
    FairAfter r s (.poll j answered) i := by
  by_cases hij : i = j
  · subst hij
    have hguard : x.pollThread = .checkExpecting → x.expectingExit = false →
        x.beatReports = false ∧ x.heartbeat ≠ .reported := fun hthread hexpecting => by
      simpa [guarded, hx, hthread, hexpecting] using hguarded
    obtain ⟨hstep, hunasked⟩ := hfair.poll answered hguard
    refine ⟨x.poll answered, ?_, ?_, fun hmem => hunasked ?_⟩
    · simp only [step, pollStep]
      split <;> simp [hx]
    · by_cases hemit : x.pollThread = .emitExit <;>
        simpa [notes, hx, hemit, List.count_append] using hstep
    · by_contra hemit
      simp [notes, hx, hemit] at hmem
  · refine hfair.other hij ?_ fun n hn => mem_poll_notes hn
    simp only [step, pollStep]
    split <;> simp [hij, hx]

theorem fair_heartbeat {j : Nat}
    (hfair : x.Fair (s.log.count (.kernelExit i)) (.expecting i ∈ s.log))
    (hguarded : guarded s (.heartbeat j) = true) (hx : s.sessions i = some x) :
    FairAfter r s (.heartbeat j) i := by
  by_cases hij : i = j
  · subst hij
    have hguard : x.heartbeat = .called → x.isOver = false →
        x.expectingExit = false ∧ x.pollThread ≠ .storeCrashed := fun hthread hover => by
      simpa [guarded, hx, hthread, hover] using hguarded
    obtain ⟨hstep, hunasked⟩ := hfair.beat hguard
    refine ⟨x.beat, ?_, ?_, fun hmem => hunasked ?_⟩
    · simp only [step, heartbeatStep]
      split <;> simp [hx]
    · by_cases hreport : x.heartbeat = .report <;>
        simpa [notes, hx, hreport, List.count_append] using hstep
    · by_contra hreport
      simp [notes, hx, hreport] at hmem
  · refine hfair.other hij ?_ fun n hn => mem_beat_notes hn
    simp only [step, heartbeatStep]
    split <;> simp [hij, hx]

theorem fair_die {j : Nat}
    (hfair : x.Fair (s.log.count (.kernelExit i)) (.expecting i ∈ s.log))
    (hx : s.sessions i = some x) : FairAfter r s (.die j) i := by
  by_cases hij : i = j
  · subst hij
    refine ⟨{ x with alive := false }, by simp [step, hx], ?_, fun hmem => by cases hmem⟩
    obtain ⟨honce, hflagged, hexpected, hfirst, hmarked⟩ := hfair
    rw [notes, List.append_nil]
    exact ⟨honce, hflagged, hexpected, hfirst, hmarked⟩
  · exact hfair.other hij (by simp [step, hij, hx]) fun n hn => by cases hn

/-- **One step, one session.** -/
theorem fair_step (h : Reporting s) (hs : (system r).Reachable s) {e : Event}
    (hguarded : guarded s e = true) (hx : s.sessions i = some x) : FairAfter r s e i := by
  have hfair := h.fair i x hx
  cases e with
  | op o choice => exact fair_op hs hfair hguarded hx
  | poll j answered => exact fair_poll hfair hguarded hx
  | heartbeat j => exact fair_heartbeat hfair hguarded hx
  | die j => exact fair_die hfair hx

/-- A step notes only sessions that are there. -/
theorem notes_session (hs : (system r).Reachable s) {e : Event} {i : Nat}
    (h : .kernelExit i ∈ notes s e ∨ .expecting i ∈ notes s e) : ∃ x, s.sessions i = some x := by
  cases e with
  | op o choice =>
    rcases h with h | h
    · obtain ⟨k, -, heq⟩ := mem_asks h
      cases heq
    · obtain ⟨k, hk, heq⟩ := mem_asks h
      rw [Note.expecting.inj heq]
      exact stopping_session hs hk
  | poll j answered =>
    rcases h with h | h
    · obtain rfl := Note.kernelExit.inj (mem_poll_notes h)
      cases hx : s.sessions i with
      | none => simp [notes, hx] at h
      | some x => exact ⟨x, rfl⟩
    · cases mem_poll_notes h
  | heartbeat j =>
    rcases h with h | h
    · obtain rfl := Note.kernelExit.inj (mem_beat_notes h)
      cases hx : s.sessions i with
      | none => simp [notes, hx] at h
      | some x => exact ⟨x, rfl⟩
    · cases mem_beat_notes h
  | die j => rcases h with h | h <;> cases h

omit [DecidableEq ι] in
/-- A step adds one note at most. -/
theorem notes_pairwise (e : Event) (R : Note → Note → Prop) : (notes s e).Pairwise R := by
  cases e with
  | op o choice =>
    simp only [notes, asks]
    split <;> simp
  | poll | heartbeat =>
    simp only [notes]
    split <;> simp
  | die => exact .nil

theorem Reporting.step (h : Reporting s) (hs : (system r).Reachable s) {e : Event}
    (hguarded : guarded s e = true) : Reporting (Registry.step r s e) where
  unmade i hi := by
    have hbefore : s.sessions i = none := by
      by_contra hne
      obtain ⟨x, hx⟩ := Option.ne_none_iff_exists'.mp hne
      obtain ⟨y, hy, -⟩ := change (r := r) (numbered r s hs) hx e
      rw [hi] at hy
      cases hy
    have hnotes : .kernelExit i ∉ notes s e ∧ .expecting i ∉ notes s e := by
      constructor <;> intro hmem
      · obtain ⟨x, hx⟩ := notes_session hs (.inl hmem)
        rw [hbefore] at hx
        cases hx
      · obtain ⟨x, hx⟩ := notes_session hs (.inr hmem)
        rw [hbefore] at hx
        cases hx
    obtain ⟨hcount, hasked⟩ := h.unmade i hbefore
    rw [log_step, List.count_append, hcount, List.count_eq_zero.mpr hnotes.1, List.mem_append]
    exact ⟨rfl, not_or.mpr ⟨hasked, hnotes.2⟩⟩
  fair i y hy := by
    rw [log_step]
    rcases hx : s.sessions i with _ | x
    · -- a new session: nobody has noted anything of it
      rcases change_none (r := r) hx e with hnone | ⟨o, ⟨rfl, ho⟩, -, hnew⟩
      · rw [hnone] at hy
        cases hy
      · obtain rfl := Option.some.inj (hnew.symm.trans hy)
        obtain ⟨hcount, hasked⟩ := h.unmade i hx
        have hnotes : notes s (.op o true) = [] := by simp [notes, ho, asks]
        rw [hnotes, List.append_nil, hcount, eq_false hasked]
        exact .init _
    · obtain ⟨y', hy', hfair, -⟩ := fair_step h hs hguarded hx
      obtain rfl := Option.some.inj (hy'.symm.trans hy)
      exact hfair
  ordered := by
    rw [log_step]
    refine List.pairwise_append.mpr ⟨h.ordered, notes_pairwise e _, ?_⟩
    rintro n hn n' hn' i rfl rfl
    obtain ⟨x, hx⟩ := notes_session hs (.inl hn')
    obtain ⟨-, -, -, hunasked⟩ := fair_step h hs hguarded hx
    exact hunasked hn' hn

theorem reporting :
    ∀ s, ((system r).when fun s e => guarded s e = true).Reachable s → Reporting s := by
  apply Transition.System.invariant
  · rintro s rfl
    exact ⟨fun i _ => ⟨rfl, fun h => (by cases h)⟩, fun i x hx => (by cases hx), .nil⟩
  · rintro s e s' hreach h ⟨hguarded, rfl⟩
    exact h.step hreach.of_when hguarded

omit [DecidableEq ι] in
theorem Reporting.wellReported (h : Reporting s) : WellReported s.log where
  once i := by
    rcases hx : s.sessions i with _ | x
    · rw [(h.unmade i hx).1]
      exact Nat.zero_le 1
    · have := (h.fair i x hx).once
      omega
  unrequested := h.ordered

variable (r) in
/-- **One report.** In every guarded run a launch has at most one `kernelExit`, and none once a
stop of it has set `expectingExit`. -/
theorem one_exit_report (es : List Event)
    (hguarded : ∀ pre e, pre ++ [e] <+: es → guarded (run r pre) e = true) :
    WellReported (run r es).log :=
  (reporting _ (Transition.System.reachable_when_foldl hguarded)).wellReported

/-! ## Two reports, and one too late -/

/-- Operation 0 creates a session, and 1 restarts it. -/
def createThenRestart : Requests Unit where
  kind o := if o = 0 then .create else .restart
  id _ := ()
  fresh o o' h h' _ := by
    simp only [ite_eq_left_iff, reduceCtorEq, imp_false, not_not] at h h'
    rw [h, h']

/-- A session that is made and polled. -/
def started : List Event := List.replicate 10 (.op 0 true)

/-- The poll loop finds the process gone and reports it. -/
def foundDead : List Event := .die 0 :: List.replicate 7 (.poll 0 false)

theorem one_exit_report_crash :
    WellReported (run createThenRestart (started ++ foundDead)).log :=
  one_exit_report createThenRestart _ (Transition.System.forall_of_allSteps (by decide +kernel))

/-- **Two reports, and one too late.** A kernel hangs, its heartbeat is given up, and later its
process is gone: both are reported. And a listener past its check reports a kernel that a
restart has asked to go. -/
theorem stuck_then_dead_reported_twice :
    ¬ WellReported (run createThenRestart
        (started ++ List.replicate 4 (.heartbeat 0) ++ foundDead)).log ∧
      ¬ WellReported (run createThenRestart
        (started ++ List.replicate 2 (.heartbeat 0) ++ List.replicate 6 (.op 1 true) ++
          List.replicate 2 (.heartbeat 0))).log := by
  constructor
  · intro h
    exact absurd (h.once 0) (by decide +kernel)
  · intro h
    have hlog : (run createThenRestart
        (started ++ List.replicate 2 (.heartbeat 0) ++ List.replicate 6 (.op 1 true) ++
          List.replicate 2 (.heartbeat 0))).log = [.expecting 0, .kernelExit 0] := by
      decide +kernel
    have hordered := h.unrequested
    rw [hlog] at hordered
    exact List.rel_of_pairwise_cons hordered (List.mem_singleton.mpr rfl) 0 rfl rfl

end Jovian.Registry
