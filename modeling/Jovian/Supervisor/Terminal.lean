import Jovian.Supervisor.Sessions

/-!
# Jovian — a stopped session is terminal

What the registry promises about kernel processes and stopped sessions (`Consistent`): one
live process per id, each with an owner, and nothing left of a session whose `stopSession`
has returned.

Two races break it. An id is in the registry before its poll thread starts, so a stop can run
to its end between the two, and `createSessionWithId` then starts a poll thread for a stopped
session (`poll_thread_after_stop`). And the heartbeat's listener checks the status and then
stores `Crashed`, over a `Stopped` stored in between (`crashed_over_stopped`).

* **`stop_is_terminal`** — in every run without these two (`calm`), every state is
  consistent and no session leaves `Stopped`.
-/

namespace Jovian.Registry

variable {ι : Type} (r : Requests ι) [DecidableEq ι]

/-! ## What is promised -/

/-- `stopSession` has returned true for session `i`, and `createSessionWithId` has not begun. -/
def StopReturned (i : Nat) : OpPc → Prop
  | .restartErase stopped => stopped = some i
  | .unlock result | .returned result => result = .stopped i
  | _ => False

/-- The session's poll thread is running. -/
def Session.IsPolling (x : Session ι) : Prop :=
  x.pollThread ≠ .notStarted ∧ x.pollThread ≠ .ended

structure Consistent (s : State ι) : Prop where
  /-- An id has at most one live kernel process. -/
  one : ∀ i j x y, s.sessions i = some x → s.sessions j = some y → x.alive → y.alive →
    x.id = y.id → i = j
  /-- A live kernel process is registered under its id, or still being made for it. -/
  owned : ∀ i x, s.sessions i = some x → x.alive →
    s.registry x.id = some i ∨ ∃ o stage, r.id o = x.id ∧ s.ops o = .creating stage i
  /-- Of a session that was stopped nothing runs, and its id is not registered. -/
  stopped : ∀ o i, StopReturned i (s.ops o) →
    s.registry (r.id o) = none ∧
      ∃ x, s.sessions i = some x ∧ x.id = r.id o ∧ x.alive = false ∧ ¬ x.IsPolling

/-- A session that is `Stopped` in the run stays so to its end. -/
def StaysStopped (es : List Event) : Prop :=
  ∀ pre, pre <+: es → ∀ i x, (run r pre).sessions i = some x → x.status = .stopped →
    ∃ y, (run r es).sessions i = some y ∧ y.status = .stopped

/-- The step is neither of the two races: a stop that finds no poll thread to join, and one
that stores `Stopped` while the heartbeat's listener is past its check. -/
def calm (s : State ι) : Event → Bool
  | .op o _ =>
    match s.ops o with
    | .stopping .join i => (s.sessions i).all (·.pollThread ≠ .notStarted)
    | .stopping .setStopped i => (s.sessions i).all (·.heartbeat ≠ .passed)
    | _ => true
  | _ => true

/-! ## What a step keeps of a session -/

/-- The registry changes at three places. -/
theorem registry_change {s : State ι} {e : Event} {id : ι}
    (h : (step r s e).registry id ≠ s.registry id) :
    ∃ o choice, e = .op o choice ∧ r.id o = id ∧
      ((∃ i, s.ops o = .stopping .erase i) ∨ (∃ i, s.ops o = .restartErase i) ∨
        ∃ j, s.ops o = .creating .insert j) := by
  cases e with
  | op o choice =>
    change (opStep r s o choice).registry id ≠ _ at h
    have hid : (∃ v, (opStep r s o choice).registry id = if id = r.id o then v else s.registry id) →
        r.id o = id := by
      rintro ⟨v, hv⟩
      by_contra hne
      rw [hv, if_neg (Ne.symm hne)] at h
      exact h rfl
    refine ⟨o, choice, rfl, ?_⟩
    unfold opStep at h hid
    cases hpc : s.ops o with
    | stopping stage i =>
      rw [hpc] at h hid
      cases stage with
      | erase => exact ⟨hid ⟨none, by simp [stopStep]⟩, .inl ⟨i, rfl⟩⟩
      | sampleAlive | grace | join =>
        simp only [stopStep] at h
        split at h <;> simp at h
      | _ => simp [stopStep] at h
    | restartErase i =>
      rw [hpc] at h hid
      exact ⟨hid ⟨none, by simp⟩, .inr (.inl ⟨i, rfl⟩)⟩
    | creating stage j =>
      rw [hpc] at h hid
      cases stage with
      | insert => exact ⟨hid ⟨some j, by simp [createStep]⟩, .inr (.inr ⟨j, rfl⟩)⟩
      | awaitRegistration | startClient =>
        simp only [createStep] at h
        split at h <;> simp at h
      | _ => simp [createStep] at h
    | idle | unlock | returned => simp [hpc] at h
    | _ =>
      simp only [hpc] at h
      split at h <;> simp at h
  | poll i answered =>
    simp only [step, pollStep] at h
    split at h <;> simp at h
  | heartbeat i =>
    simp only [step, heartbeatStep] at h
    split at h <;> simp at h
  | die i => simp [step] at h

/-- What never comes back: a session's id does not change, a dead process stays dead, and a
poll thread that has ended stays so. -/
structure Settles (x y : Session ι) : Prop where
  id : y.id = x.id
  dead : x.alive = false → y.alive = false
  ended : x.pollThread = .ended → y.pollThread = .ended

omit [DecidableEq ι] in
theorem settles {s : State ι} {i : Nat} {x y : Session ι} {e : Event}
    (hunstarted : ∀ o stage, s.ops o = .creating stage i → x.pollThread = .notStarted)
    (h : Change s i x e y) : Settles x y := by
  cases h with
  | startPoll o choice ho =>
    refine ⟨rfl, id, fun hended => ?_⟩
    rw [hunstarted o _ ho] at hended
    cases hended
  | poll answered =>
    unfold Session.poll
    split <;> constructor <;> simp_all
  | beat =>
    unfold Session.beat
    split <;> exact ⟨rfl, id, id⟩
  | answer o choice ho =>
    unfold answerStop
    split <;> exact ⟨rfl, id, id⟩
  | kill | drop | die => exact ⟨rfl, fun _ => rfl, id⟩
  | _ => exact ⟨rfl, id, id⟩

/-! ## What a stop knows of its session -/

/-- Past `join`, and past `kill`. -/
def StopStage.joined : StopStage → Bool
  | .stopChannels | .kill | .setStopped | .erase => true
  | _ => false

def StopStage.killed : StopStage → Bool
  | .setStopped | .erase => true
  | _ => false

/-- The session an operation at this point is stopping or has stopped; whether its poll thread
has been joined; whether its process has been killed. -/
def OpPc.stops : OpPc → Option (Nat × Bool × Bool)
  | .stopping stage i => some (i, stage.joined, stage.killed)
  | .restartErase (some i) | .unlock (.stopped i) | .returned (.stopped i) => some (i, true, true)
  | _ => none

attribute [grind =] OpPc.stops

theorem stops_of_returned {i : Nat} {pc : OpPc} (h : StopReturned i pc) :
    pc.stops = some (i, true, true) := by
  cases pc <;> simp_all [StopReturned, OpPc.stops]

variable {r}

omit [DecidableEq ι] in
theorem finish_stops (o : Nat) : (finish r o .failed).stops = none ∧
    ∀ j, (finish r o (.created j)).stops = none := by
  simp only [finish]
  split <;> simp [OpPc.stops]

/-- A stop joins its poll thread at `join` and kills its process at `kill`. -/
theorem stopStep_stops {s : State ι} {o i i' : Nat} {stage : StopStage} {choice joined killed : Bool}
    (hpc : s.ops o = .stopping stage i)
    (h : ((stopStep r s o i choice stage).ops o).stops = some (i', joined, killed)) :
    i' = i ∧
      (joined = true → stage.joined ∨
        stage = .join ∧ ∀ x, s.sessions i = some x → x.pollThread = .notStarted ∨ x.pollThread = .ended) ∧
      (killed = true → stage.killed ∨ stage = .kill) := by
  cases stage with
  | sampleAlive | grace =>
    simp only [stopStep] at h
    split at h <;> simp_all [OpPc.stops, StopStage.joined, StopStage.killed]
  | join =>
    simp only [stopStep] at h
    split at h
    · next hjoin =>
      obtain ⟨rfl, rfl, rfl⟩ : i = i' ∧ true = joined ∧ false = killed := by
        simpa [OpPc.stops, StopStage.joined, StopStage.killed] using h
      refine ⟨rfl, fun _ => .inr ⟨rfl, fun x hx => ?_⟩, by simp⟩
      simpa [hx] using hjoin
    · simp_all [OpPc.stops, StopStage.joined, StopStage.killed]
  | erase =>
    simp only [stopStep] at h
    split at h <;> simp_all [OpPc.stops, StopStage.joined, StopStage.killed]
  | _ => simp_all [stopStep, OpPc.stops, StopStage.joined, StopStage.killed]

theorem createStep_stops {s : State ι} {o j : Nat} {stage : CreateStage} (choice : Bool) :
    ((createStep r s o j choice stage).ops o).stops = none := by
  cases stage with
  | awaitRegistration | startClient =>
    simp only [createStep]
    split
    · simp [OpPc.stops]
    · simp only [State.goto_ops, if_true, finish_stops]
  | startPoll => simp only [createStep, State.goto_ops, if_true, finish_stops]
  | _ => simp [createStep, OpPc.stops]

/-- Where an operation's knowledge of the session it stops comes from. -/
theorem opStep_stops {s : State ι} {o i : Nat} {choice joined killed : Bool}
    (h : ((opStep r s o choice).ops o).stops = some (i, joined, killed)) :
    (s.registry (r.id o) = some i ∧ joined = false ∧ killed = false) ∨
      ∃ joined₀ killed₀, (s.ops o).stops = some (i, joined₀, killed₀) ∧
        (joined = true → joined₀ = true ∨ s.ops o = .stopping .join i ∧
          ∀ x, s.sessions i = some x → x.pollThread = .notStarted ∨ x.pollThread = .ended) ∧
        (killed = true → killed₀ = true ∨ s.ops o = .stopping .kill i) := by
  unfold opStep at h
  cases hpc : s.ops o with
  | stopping stage k =>
    rw [hpc] at h
    obtain ⟨rfl, hjoined, hkilled⟩ := stopStep_stops hpc h
    refine .inr ⟨stage.joined, stage.killed, rfl, fun hj => ?_, fun hk => ?_⟩
    · rcases hjoined hj with hj | ⟨rfl, hover⟩
      · exact .inl hj
      · exact .inr ⟨rfl, hover⟩
    · rcases hkilled hk with hk | rfl
      · exact .inl hk
      · exact .inr rfl
  | creating stage j =>
    rw [hpc] at h
    simp [createStep_stops choice] at h
  | stopGetSession =>
    simp only [hpc] at h
    split at h
    · next k hk =>
      left
      simp_all [OpPc.stops, StopStage.joined, StopStage.killed]
    · split at h <;> simp_all [OpPc.stops]
  | unlock result =>
    -- the result is passed on, and with it what is known
    rw [hpc] at h
    refine .inr ⟨joined, killed, ?_, .inl, .inl⟩
    rw [← h]
    cases result <;> simp [OpPc.stops]
  | returned result =>
    rw [hpc] at h
    exact .inr ⟨joined, killed, by rw [← h]; simp [hpc], .inl, .inl⟩
  | validate | spawn =>
    simp only [hpc] at h
    split at h
    · simp [OpPc.stops] at h
    · simp [finish_stops] at h
  | lock =>
    simp only [hpc] at h
    split at h
    · simp only [State.goto_ops, if_true] at h
      split at h <;> simp [OpPc.stops] at h
    · simp [hpc, OpPc.stops] at h
  | idle =>
    simp only [hpc, State.goto_ops, if_true] at h
    split at h <;> simp [OpPc.stops] at h
  | getSession =>
    simp only [hpc] at h
    split at h <;> simp [OpPc.stops] at h
  | restartErase k => simp [hpc, OpPc.stops] at h

/-! ## The invariant -/

variable (r) in
structure Orderly (s : State ι) : Prop where
  stops : ∀ o i joined killed, (s.ops o).stops = some (i, joined, killed) →
    ∃ x, s.sessions i = some x ∧ x.id = r.id o ∧ (joined = true → x.pollThread = .ended) ∧
      (killed = true → x.alive = false)
  owned : ∀ i x, s.sessions i = some x → x.alive = true →
    s.registry x.id = some i ∨ ∃ o, (custodyOf s).phase o = .building (some i)
  final : ∀ i x, s.sessions i = some x → x.status = .stopped →
    x.pollThread = .ended ∧ x.heartbeat ≠ .passed

omit [DecidableEq ι] in
theorem orderly_init : Orderly r ({} : State ι) where
  stops := by simp [OpPc.stops]
  owned := by simp
  final := by simp

section Step

variable {s : State ι} {e : Event}

/-- A session before a step and after it. -/
theorem settles_step (hs : (system r).Reachable s) {i : Nat} {x : Session ι}
    (hx : s.sessions i = some x) :
    ∃ y, (step r s e).sessions i = some y ∧ Change s i x e y ∧ Settles x y := by
  obtain ⟨y, hy, hchange⟩ := change (r := r) (numbered r s hs) hx e
  exact ⟨y, hy, hchange, settles (fun o stage ho => unstarted r s hs ho hx) hchange⟩

/-- A session after a step and before it, if it is not a new one. -/
theorem session_before (hs : (system r).Reachable s) {i : Nat} {y : Session ι}
    (hy : (step r s e).sessions i = some y) :
    (∃ x, s.sessions i = some x ∧ Change s i x e y ∧ Settles x y) ∨
      ∃ o, Spawns s e o ∧ i = s.launches ∧ y = { id := r.id o } := by
  rcases hx : s.sessions i with _ | x
  · rcases change_none (r := r) hx e with hnone | ⟨o, hspawn, hi, hnew⟩
    · rw [hnone] at hy
      cases hy
    · exact .inr ⟨o, hspawn, hi, Option.some.inj (hy.symm.trans hnew)⟩
  · obtain ⟨y', hy', h⟩ := settles_step (e := e) hs hx
    obtain rfl := Option.some.inj (hy'.symm.trans hy)
    exact .inl ⟨x, rfl, h⟩

theorem Orderly.stops_step (h : Orderly r s) (hs : (system r).Reachable s)
    (hcalm : calm s e = true) {o i : Nat} {joined killed : Bool}
    (hstops : ((step r s e).ops o).stops = some (i, joined, killed)) :
    ∃ y, (step r s e).sessions i = some y ∧ y.id = r.id o ∧
      (joined = true → y.pollThread = .ended) ∧ (killed = true → y.alive = false) := by
  by_cases he : ∀ choice, e ≠ .op o choice
  · -- another's step: what `o` knows stays true
    rw [ops_other he] at hstops
    obtain ⟨x, hx, hid, hjoined, hkilled⟩ := h.stops o i joined killed hstops
    obtain ⟨y, hy, -, hsettles⟩ := settles_step (e := e) hs hx
    exact ⟨y, hy, hsettles.id.trans hid, fun hj => hsettles.ended (hjoined hj),
      fun hk => hsettles.dead (hkilled hk)⟩
  · obtain ⟨choice, rfl⟩ := not_forall_not.mp he
    rcases opStep_stops hstops with ⟨hregistry, rfl, rfl⟩ | ⟨j₀, k₀, hbefore, hj, hk⟩
    · -- `o` takes the session that is registered
      obtain ⟨x, hx, hid⟩ := Option.map_eq_some_iff.mp ((sound r s hs).owner_registry _ _ hregistry)
      obtain ⟨y, hy, -, hsettles⟩ := settles_step (e := .op o choice) hs hx
      exact ⟨y, hy, hsettles.id.trans hid, nofun, nofun⟩
    · obtain ⟨x, hx, hid, hjoined, hkilled⟩ := h.stops o i j₀ k₀ hbefore
      obtain ⟨y, hy, -, hsettles⟩ := settles_step (e := .op o choice) hs hx
      refine ⟨y, hy, hsettles.id.trans hid, fun hjt => ?_, fun hkt => ?_⟩
      · rcases hj hjt with hj | ⟨hpc, hover⟩
        · exact hsettles.ended (hjoined hj)
        · -- `calm`: there is a thread to join
          refine hsettles.ended ((hover x hx).resolve_left ?_)
          simpa [calm, hpc, hx] using hcalm
      · rcases hk hkt with hk | hpc
        · exact hsettles.dead (hkilled hk)
        · have : (step r s (.op o choice)).sessions i = some { x with alive := false } := by
            simp [step, opStep, hpc, stopStep, hx]
          rw [this] at hy
          cases hy
          rfl

/-- Nothing moves a session that is `Stopped`. -/
theorem stopped_step (hs : (system r).Reachable s) {i : Nat} {x y : Session ι}
    (hx : s.sessions i = some x) (hstopped : x.status = .stopped) (hended : x.pollThread = .ended)
    (hpassed : x.heartbeat ≠ .passed) (hchange : Change s i x e y) :
    y.status = .stopped ∧ y.pollThread = .ended ∧ y.heartbeat ≠ .passed := by
  have hcreating : ∀ o stage, s.ops o ≠ .creating stage i := fun o stage ho => by
    have := unstarted r s hs ho hx
    rw [hended] at this
    cases this
  cases hchange with
  | setReady o choice ho | startPoll o choice ho | listen o choice ho => exact absurd ho (hcreating o _)
  | poll answered =>
    have : x.poll answered = x := by simp [Session.poll, hended]
    rw [this]
    exact ⟨hstopped, hended, hpassed⟩
  | beat =>
    unfold Session.beat
    split <;> simp_all
  | answer o choice ho =>
    unfold answerStop
    cases choice <;> split <;> simp_all
  | setStopped => exact ⟨rfl, hended, hpassed⟩
  | _ => exact ⟨hstopped, hended, hpassed⟩

theorem Orderly.final_step (h : Orderly r s) (hs : (system r).Reachable s)
    (hcalm : calm s e = true) {i : Nat} {y : Session ι}
    (hy : (step r s e).sessions i = some y) (hstopped : y.status = .stopped) :
    y.pollThread = .ended ∧ y.heartbeat ≠ .passed := by
  rcases session_before hs hy with ⟨x, hx, hchange, hsettles⟩ | ⟨o, -, -, rfl⟩
  · by_cases hbefore : x.status = .stopped
    · obtain ⟨hended, hpassed⟩ := h.final i x hx hbefore
      exact (stopped_step hs hx hbefore hended hpassed hchange).2
    · cases hchange with
      | setStopped o choice ho =>
        -- the thread has been joined; `calm`: the listener is not past its check
        obtain ⟨x', hx', -, hjoined, -⟩ := h.stops o i true true (by rw [ho]; rfl)
        obtain rfl := Option.some.inj (hx'.symm.trans hx)
        exact ⟨hjoined rfl, by simpa [calm, ho, hx] using hcalm⟩
      | poll answered =>
        unfold Session.poll at hstopped
        split at hstopped <;> simp_all
      | beat =>
        unfold Session.beat at hstopped
        split at hstopped <;> simp_all
      | answer o choice ho =>
        unfold answerStop at hstopped
        split at hstopped <;> simp_all
      | _ => simp_all
  · cases hstopped

/-- A launch that is registered stays so while its process lives. -/
theorem Orderly.registered_step (h : Orderly r s) (hs : (system r).Reachable s) {i : Nat}
    {x : Session ι} (hx : s.sessions i = some x) (halive : x.alive = true)
    (hregistered : s.registry x.id = some i) : (step r s e).registry x.id = some i := by
  have hsound := sound r s hs
  by_contra hne
  obtain ⟨o, choice, rfl, hid, ⟨k, ho⟩ | ⟨k, ho⟩ | ⟨j, ho⟩⟩ :=
    registry_change r (fun heq => hne (heq.trans hregistered))
  · -- a stop erases the session it has killed
    have hk : s.registry (r.id o) = some k := hsound.stopping o k (by simp [custodyOf, ho, phaseOf])
    obtain rfl : k = i := by
      rw [hid, hregistered] at hk
      exact (Option.some.inj hk).symm
    obtain ⟨x', hx', -, -, hkilled⟩ := h.stops o k true true (by rw [ho]; rfl)
    obtain rfl := Option.some.inj (hx'.symm.trans hx)
    rw [hkilled rfl] at halive
    cases halive
  · have hnone : s.registry (r.id o) = none := hsound.erased o (by simp [custodyOf, ho, phaseOf])
    rw [hid, hregistered] at hnone
    cases hnone
  · have hnone : s.registry (r.id o) = none :=
      hsound.building o (some j) (by simp [custodyOf, ho, phaseOf])
    rw [hid, hregistered] at hnone
    cases hnone

/-- A launch that is being built stays so until it is registered or dead. -/
theorem building_kept (hs : (system r).Reachable s) {i o : Nat} {x y : Session ι}
    (hx : s.sessions i = some x) (hy : (step r s e).sessions i = some y)
    (halive : y.alive = true) (hbuilding : (custodyOf s).phase o = .building (some i)) :
    (step r s e).registry x.id = some i ∨
      (custodyOf (step r s e)).phase o = .building (some i) := by
  change phaseOf (s.ops o) = _ at hbuilding
  show _ ∨ phaseOf ((step r s e).ops o) = _
  by_cases he : ∀ choice, e ≠ .op o choice
  · right
    rwa [ops_other he]
  · obtain ⟨choice, rfl⟩ := not_forall_not.mp he
    cases hpc : s.ops o with
    | creating stage j =>
      rw [hpc] at hbuilding
      obtain rfl : j = i := by cases stage <;> simp_all [phaseOf]
      cases stage with
      | awaitRegistration | startClient =>
        cases choice with
        | true => simp [step, opStep, hpc, createStep, phaseOf]
        | false =>
          -- a failed launch destroys its process
          simp only [step, opStep, hpc, createStep] at hy
          simp [hx] at hy
          subst hy
          cases halive
      | insert =>
        obtain ⟨x', hx', hid⟩ := creating_session hs hpc
        obtain rfl := Option.some.inj (hx'.symm.trans hx)
        simp [step, opStep, hpc, createStep, hid]
      | listen | setReady => simp [step, opStep, hpc, createStep, phaseOf]
      | setPolling | startPoll => simp [phaseOf] at hbuilding
    | _ => simp [hpc, phaseOf] at hbuilding

theorem Orderly.owned_step (h : Orderly r s) (hs : (system r).Reachable s) {i : Nat}
    {y : Session ι} (hy : (step r s e).sessions i = some y) (halive : y.alive = true) :
    (step r s e).registry y.id = some i ∨
      ∃ o, (custodyOf (step r s e)).phase o = .building (some i) := by
  rcases session_before hs hy with ⟨x, hx, -, hsettles⟩ | ⟨o, ⟨rfl, hspawn⟩, rfl, rfl⟩
  · have halive₀ : x.alive = true := by
      by_contra hdead
      rw [hsettles.dead (Bool.eq_false_iff.mpr hdead)] at halive
      cases halive
    rw [hsettles.id]
    rcases h.owned i x hx halive₀ with hregistered | ⟨o, hbuilding⟩
    · exact .inl (h.registered_step hs hx halive₀ hregistered)
    · exact (building_kept hs hx hy halive hbuilding).imp_right fun hb => ⟨o, hb⟩
  · refine .inr ⟨o, ?_⟩
    show phaseOf ((step r s _).ops o) = _
    simp [step, opStep, hspawn, phaseOf]

end Step

/-- **In calm runs the registry stays orderly.** -/
theorem orderly : ∀ s, ((system r).when fun s e => calm s e = true).Reachable s → Orderly r s := by
  apply Transition.System.invariant
  · rintro s rfl
    exact orderly_init
  · rintro s e s' hreach h ⟨hcalm, rfl⟩
    have hs := hreach.of_when
    exact {
      stops := fun o i j k => h.stops_step hs hcalm
      owned := fun i y => h.owned_step hs
      final := fun i y => h.final_step hs hcalm }

theorem Orderly.consistent {s : State ι} (h : Orderly r s) (hs : (system r).Reachable s) :
    Consistent r s where
  one i j x y hx hy hxa hya hid := by
    have hsound := sound r s hs
    have hbuilding : ∀ {i o} {x : Session ι}, s.sessions i = some x →
        (custodyOf s).phase o = .building (some i) → x.id = r.id o := fun {i o x} hx ho => by
      obtain ⟨x', hx', hid⟩ := Option.map_eq_some_iff.mp (hsound.owner_building o i ho)
      obtain rfl := Option.some.inj (hx'.symm.trans hx)
      exact hid
    rcases h.owned i x hx hxa with hi | ⟨o, ho⟩ <;> rcases h.owned j y hy hya with hj | ⟨o', ho'⟩
    · rw [hid, hj] at hi
      exact (Option.some.inj hi).symm
    · -- nothing is registered under an id while a session is built for it
      have hnone : s.registry (r.id o') = none := hsound.building o' _ ho'
      rw [← hbuilding hy ho', ← hid, hi] at hnone
      cases hnone
    · have hnone : s.registry (r.id o) = none := hsound.building o _ ho
      rw [← hbuilding hx ho, hid, hj] at hnone
      cases hnone
    · have hids : r.id o' = r.id o := by
        rw [← hbuilding hx ho, ← hbuilding hy ho', hid]
      obtain rfl := hsound.build_unique ho ho' hids
      rw [ho] at ho'
      simpa using ho'
  owned i x hx halive := by
    refine (h.owned i x hx halive).imp_right fun ⟨o, ho⟩ => ?_
    obtain ⟨x', hx', hid⟩ := Option.map_eq_some_iff.mp ((sound r s hs).owner_building o i ho)
    obtain rfl := Option.some.inj (hx'.symm.trans hx)
    change phaseOf (s.ops o) = _ at ho
    cases hpc : s.ops o with
    | creating stage j =>
      rw [hpc] at ho
      obtain rfl : j = i := by cases stage <;> simp_all [phaseOf]
      exact ⟨o, stage, hid.symm, hpc⟩
    | _ => simp [hpc, phaseOf] at ho
  stopped o i hreturned := by
    obtain ⟨x, hx, hid, hjoined, hkilled⟩ := h.stops o i true true (stops_of_returned hreturned)
    have hnone : s.registry (r.id o) = none := by
      cases hpc : s.ops o with
      | restartErase k => exact (sound r s hs).erased o (by simp [custodyOf, hpc, phaseOf])
      | unlock result | returned result =>
        rw [hpc] at hreturned
        obtain rfl : result = .stopped i := hreturned
        exact ((sound r s hs).gone o i (by simp [custodyOf, hpc, phaseOf])).1
      | _ => simp [hpc, StopReturned] at hreturned
    exact ⟨hnone, x, hx, hid, hkilled rfl, fun hpolling => hpolling.2 (hjoined rfl)⟩

/-! ## Every calm run -/

variable (r) in
theorem stopped_stays (es : List Event)
    (hcalm : ∀ pre e, pre ++ [e] <+: es → calm (run r pre) e = true) :
    StaysStopped r es := by
  induction es using List.reverseRecOn with
  | nil =>
    intro pre hpre i x hx hstopped
    obtain rfl := List.prefix_nil.mp hpre
    exact ⟨x, hx, hstopped⟩
  | append_singleton es e ih =>
    intro pre hpre i x hx hstopped
    rcases List.prefix_concat_iff.mp hpre with rfl | hpre
    · exact ⟨x, hx, hstopped⟩
    · have hcalm' : ∀ pre e, pre ++ [e] <+: es → calm (run r pre) e = true :=
        fun pre e' h => hcalm pre e' (h.trans (List.prefix_append _ _))
      obtain ⟨y, hy, hstopped⟩ := ih hcalm' pre hpre i x hx hstopped
      have horderly := orderly _ (Transition.System.reachable_when_foldl hcalm')
      have hs : (system r).Reachable (run r es) := Transition.System.reachable_foldl _ _ es
      obtain ⟨hended, hpassed⟩ := horderly.final i y hy hstopped
      obtain ⟨z, hz, hchange, -⟩ := settles_step (e := e) hs hy
      refine ⟨z, ?_, (stopped_step hs hy hstopped hended hpassed hchange).1⟩
      rw [run, List.foldl_append]
      exact hz

variable (r) in
/-- **A stopped session is terminal.** In every run without the two races the registry is
consistent in every state, and no session leaves `Stopped`. -/
theorem stop_is_terminal (es : List Event)
    (hcalm : ∀ pre e, pre ++ [e] <+: es → calm (run r pre) e = true) :
    Consistent r (run r es) ∧ StaysStopped r es :=
  ⟨(orderly _ (Transition.System.reachable_when_foldl hcalm)).consistent
    (Transition.System.reachable_foldl _ _ es), stopped_stays r es hcalm⟩

/-! ## The two races -/

/-- Operation 0 creates a session, and 1 stops it. -/
def createThenStop : Requests Unit where
  kind o := if o = 0 then .create else .stop
  id _ := ()
  fresh o o' h h' _ := by
    simp only [ite_eq_left_iff, reduceCtorEq, imp_false, not_not] at h h'
    rw [h, h']

/-- The session is made and registered, but its poll thread is not started. -/
def made : List Event := List.replicate 8 (.op 0 true)

def pollStarted : List Event := List.replicate 2 (.op 0 true)

/-- The stop asks the kernel to go, finds it gone and tells the poll thread to end. -/
def asked : List Event :=
  List.replicate 5 (.op 1 true) ++ .die 0 :: List.replicate 2 (.op 1 true)

theorem stop_is_terminal_once :
    let es := made ++ pollStarted ++ asked ++ [.poll 0 false] ++ List.replicate 6 (.op 1 false)
    (run createThenStop es).ops 1 = .returned (.stopped 0) ∧
      Consistent createThenStop (run createThenStop es) ∧ StaysStopped createThenStop es :=
  ⟨by decide, stop_is_terminal createThenStop _ (Transition.System.forall_of_allSteps (by decide))⟩

/-- The stop runs to its end before the poll thread starts. -/
def stopOvertakes : List Event :=
  made ++ asked ++ List.replicate 6 (.op 1 true) ++ pollStarted

/-- The heartbeat gave up in the round in which it answered the stop: its listener has passed
its check when the stop stores `Stopped`. -/
def listenerOvertakes : List Event :=
  made ++ pollStarted ++ asked ++ [.poll 0 false] ++ List.replicate 2 (.op 1 true) ++
    [.heartbeat 0] ++ List.replicate 4 (.op 1 true)

/-- **The two races.** A poll thread runs for a session whose stop has returned; and a stopped
session is `Crashed` afterwards. -/
theorem stopped_session_comes_back :
    ¬ Consistent createThenStop (run createThenStop stopOvertakes) ∧
      ¬ StaysStopped createThenStop (listenerOvertakes ++ [.heartbeat 0]) := by
  constructor
  · intro h
    have hreturned : (run createThenStop stopOvertakes).ops 1 = .returned (.stopped 0) := by decide
    obtain ⟨-, x, hx, -, -, hpolling⟩ := h.stopped 1 0 (by rw [hreturned]; rfl)
    have hrun : ((run createThenStop stopOvertakes).sessions 0).map (·.pollThread) =
        some .checkPolling := by decide
    rw [hx] at hrun
    have hthread : x.pollThread = .checkPolling := Option.some.inj hrun
    exact hpolling (by simp [Session.IsPolling, hthread])
  · intro h
    have hbefore : ((run createThenStop listenerOvertakes).sessions 0).map (·.status) =
        some .stopped := by decide
    have hafter : ((run createThenStop (listenerOvertakes ++ [.heartbeat 0])).sessions 0).map
        (·.status) = some .crashed := by decide
    obtain ⟨x, hx, hstopped⟩ := Option.map_eq_some_iff.mp hbefore
    obtain ⟨y, hy, hstays⟩ := h listenerOvertakes (List.prefix_append _ _) 0 x hx hstopped
    rw [hy, Option.map_some, hstays] at hafter
    cases hafter

end Jovian.Registry
