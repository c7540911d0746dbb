import Jovian.Supervisor.Custody

/-!
# Jovian — what a step of the registry does

Two views of `Registry.step`, each derived once and used by every proof about the registry:

* **`refines_custody`** — seen from the ids, a step is a move of the abstract `custody`, so
  every reachable state is in sound custody (`sound`).
* **`Change`** — seen from a session, a step is one of a few changes, each with the operation
  that makes it (`change`); only `spawn` makes a session.
-/

namespace Jovian.Registry

variable {ι : Type} (r : Requests ι) [DecidableEq ι]

/-! ## Seen from the ids -/

/-- What an operation at `pc` is doing with its id. -/
def phaseOf : OpPc → Phase
  | .idle => .idle
  | .lock => .waiting
  | .getSession => .looking
  | .stopGetSession => .lookingAgain
  | .stopping _ i => .stopping i
  | .restartErase _ => .erased
  | .validate | .spawn => .building none
  | .creating .setPolling j | .creating .startPoll j => .inserted j
  | .creating _ j => .building (some j)
  | .unlock result => .unlocking result
  | .returned result => .returned result

def custodyOf (s : State ι) : Custody ι where
  phase o := phaseOf (s.ops o)
  registry := s.registry
  locks := s.locks
  owner i := (s.sessions i).map (·.id)

section CustodyOf

variable (s : State ι) (o i : Nat) (pc : OpPc) (id : ι) (v : Option Nat)

omit [DecidableEq ι]

theorem custodyOf_goto : custodyOf (s.goto o pc) = (custodyOf s).goto o (phaseOf pc) := by
  refine Custody.ext (funext fun p => ?_) rfl rfl rfl
  show phaseOf ((s.goto o pc).ops p) = ((custodyOf s).goto o (phaseOf pc)).phase p
  rw [State.goto_ops, Custody.goto_phase]
  split <;> rfl

/-- No step changes a session's id. -/
theorem custodyOf_modify {f : Session ι → Session ι} (hf : ∀ x, (f x).id = x.id) :
    custodyOf (s.modify i f) = custodyOf s := by
  refine Custody.ext rfl rfl rfl (funext fun j => ?_)
  show ((s.modify i f).sessions j).map (·.id) = (s.sessions j).map (·.id)
  rw [State.modify_sessions]
  split
  · next hj => subst hj; cases s.sessions j <;> simp [hf]
  · rfl

theorem custodyOf_note (n : Note) : custodyOf (s.note n) = custodyOf s := rfl

theorem phaseOf_finish (result : Result) :
    phaseOf (finish r o result) = finalPhase (r.kind o) result := by
  simp only [finish, finalPhase]
  split <;> rfl

variable [DecidableEq ι]

theorem custodyOf_register : custodyOf (s.register id v) = (custodyOf s).register id v := rfl

theorem custodyOf_setLock : custodyOf (s.setLock id v) = (custodyOf s).setLock id v := rfl

end CustodyOf

/-- A step that leaves an operation in its phase. -/
theorem Move.stayed {c : Custody ι} {o : Nat} {f : Phase} (h : c.phase o = f) :
    Move r c o (c.goto o f) := by
  rw [Custody.goto_self c h]
  exact .stay

theorem stopStep_move (s : State ι) (o i : Nat) (choice : Bool) (stage : StopStage)
    (hpc : s.ops o = .stopping stage i) :
    Move r (custodyOf s) o (custodyOf (stopStep r s o i choice stage)) := by
  have hphase : (custodyOf s).phase o = .stopping i := by
    show phaseOf (s.ops o) = _
    rw [hpc]
    rfl
  cases stage with
  | sampleAlive | grace =>
    simp only [stopStep]
    split <;> rw [custodyOf_goto] <;> exact .stayed r hphase
  | expectExit =>
    simp only [stopStep, custodyOf_goto, custodyOf_note, custodyOf_modify, implies_true]
    exact .stayed r hphase
  | join =>
    simp only [stopStep]
    split
    · rw [custodyOf_goto]
      exact .stayed r hphase
    · exact .stay
  | stopPolling | stopChannels | kill | setStopped =>
    simp only [stopStep, custodyOf_goto, custodyOf_modify, answerStop_id, implies_true]
    exact .stayed r hphase
  | erase =>
    simp only [stopStep, custodyOf_goto, custodyOf_register]
    rw [apply_ite phaseOf]
    exact .erase i hphase

theorem createStep_move (s : State ι) (o j : Nat) (choice : Bool) (stage : CreateStage)
    (hpc : s.ops o = .creating stage j) :
    Move r (custodyOf s) o (custodyOf (createStep r s o j choice stage)) := by
  have hphase : (custodyOf s).phase o = phaseOf (.creating stage j) := by
    show phaseOf (s.ops o) = _
    rw [hpc]
  cases stage with
  | awaitRegistration | startClient =>
    simp only [createStep]
    split
    · rw [custodyOf_goto]
      exact .stayed r hphase
    · simp only [custodyOf_goto, custodyOf_modify, phaseOf_finish, implies_true]
      exact .fail _ hphase
  | listen | setReady | setPolling =>
    simp only [createStep, custodyOf_goto, custodyOf_modify, implies_true]
    exact .stayed r hphase
  | insert =>
    simp only [createStep, custodyOf_goto, custodyOf_register]
    exact .insert j hphase
  | startPoll =>
    simp only [createStep, custodyOf_goto, custodyOf_modify, phaseOf_finish, implies_true]
    exact .done j hphase

/-- Every step of an operation is a move of the custody. -/
theorem opStep_move (s : State ι) (o : Nat) (choice : Bool)
    (hbound : s.sessions s.launches = none) :
    Move r (custodyOf s) o (custodyOf (opStep r s o choice)) := by
  have hphase : (custodyOf s).phase o = phaseOf (s.ops o) := rfl
  unfold opStep
  cases hpc : s.ops o with
  | idle =>
    rw [hpc] at hphase
    simp only [custodyOf_goto]
    split
    · next hkind => exact .create hphase hkind
    · next hkind => exact .wait hphase hkind
  | lock =>
    rw [hpc] at hphase
    simp only
    split
    · next hfree =>
      rw [custodyOf_goto, custodyOf_setLock]
      rw [apply_ite phaseOf]
      exact .lock hphase hfree
    · exact .stay
  | getSession =>
    rw [hpc] at hphase
    simp only
    split
    · next i hi =>
      rw [custodyOf_goto]
      exact .found hphase (by show s.registry (r.id o) ≠ none; simp [hi])
    · rw [custodyOf_goto]
      exact .missing hphase
  | stopGetSession =>
    rw [hpc] at hphase
    simp only
    split
    · next i hi =>
      rw [custodyOf_goto]
      exact .take hphase i hi
    · next hi =>
      rw [custodyOf_goto]
      rw [apply_ite phaseOf]
      exact .missingAgain hphase hi
  | stopping stage i => exact stopStep_move r s o i choice stage hpc
  | restartErase i =>
    rw [hpc] at hphase
    simp only [custodyOf_goto, custodyOf_register]
    exact .eraseAgain hphase
  | validate =>
    rw [hpc] at hphase
    simp only
    split
    · rw [custodyOf_goto]
      exact .stayed r hphase
    · rw [custodyOf_goto, phaseOf_finish]
      exact .fail _ hphase
  | spawn =>
    rw [hpc] at hphase
    simp only
    split
    · have hnew : (custodyOf s).owner s.launches = none := by
        show (s.sessions s.launches).map (·.id) = none
        rw [hbound]
        rfl
      have hown : custodyOf { s with
          sessions := Function.update s.sessions s.launches (some { id := r.id o })
          launches := s.launches + 1 } = (custodyOf s).own s.launches (r.id o) := by
        refine Custody.ext rfl rfl rfl (funext fun i => ?_)
        show (Function.update s.sessions s.launches (some { id := r.id o }) i).map (·.id) = _
        rw [Custody.own_owner, Function.update_apply]
        split <;> rfl
      rw [custodyOf_goto, hown]
      exact .start hphase s.launches hnew
    · rw [custodyOf_goto, phaseOf_finish]
      exact .fail _ hphase
  | creating stage j => exact createStep_move r s o j choice stage hpc
  | unlock result =>
    rw [hpc] at hphase
    simp only [custodyOf_goto, custodyOf_setLock]
    exact .unlock result hphase
  | returned result => exact .stay

/-! ## Seen from a session -/

/-- Launches are numbered in order. -/
def Numbered (s : State ι) : Prop :=
  ∀ i, s.launches ≤ i → s.sessions i = none

/-- What an event can do to session `i`, which is `x` before it. -/
inductive Change (s : State ι) (i : Nat) (x : Session ι) : Event → Session ι → Prop where
  | same (e : Event) : Change s i x e x
  | expect (o : Nat) (choice : Bool) (h : s.ops o = .stopping .expectExit i) :
      Change s i x (.op o choice) { x with expectingExit := true, answeredShutdown := false }
  | unpoll (o : Nat) (choice : Bool) (h : s.ops o = .stopping .stopPolling i) :
      Change s i x (.op o choice) { x with polling := false }
  | answer (o : Nat) (choice : Bool) (h : s.ops o = .stopping .stopChannels i) :
      Change s i x (.op o choice) (answerStop choice x)
  | kill (o : Nat) (choice : Bool) (h : s.ops o = .stopping .kill i) :
      Change s i x (.op o choice) { x with alive := false }
  | setStopped (o : Nat) (choice : Bool) (h : s.ops o = .stopping .setStopped i) :
      Change s i x (.op o choice) { x with status := .stopped }
  | drop (o : Nat) (choice : Bool) (stage : CreateStage) (h : s.ops o = .creating stage i) :
      Change s i x (.op o choice) { x with alive := false }
  | listen (o : Nat) (choice : Bool) (h : s.ops o = .creating .listen i) :
      Change s i x (.op o choice) { x with heartbeat := .listening }
  | setReady (o : Nat) (choice : Bool) (h : s.ops o = .creating .setReady i) :
      Change s i x (.op o choice) { x with status := .ready }
  | setPolling (o : Nat) (choice : Bool) (h : s.ops o = .creating .setPolling i) :
      Change s i x (.op o choice) { x with polling := true }
  | startPoll (o : Nat) (choice : Bool) (h : s.ops o = .creating .startPoll i) :
      Change s i x (.op o choice) { x with pollThread := .checkPolling }
  | poll (answered : Bool) : Change s i x (.poll i answered) (x.poll answered)
  | beat : Change s i x (.heartbeat i) x.beat
  | die : Change s i x (.die i) { x with alive := false }

section Change

variable {r} {s : State ι} {i : Nat} {x : Session ι}

theorem stopStep_change (hx : s.sessions i = some x) {o j : Nat} {stage : StopStage}
    (choice : Bool) (hpc : s.ops o = .stopping stage j) :
    ∃ y, (stopStep r s o j choice stage).sessions i = some y ∧ Change s i x (.op o choice) y := by
  by_cases hij : i = j
  · subst hij
    cases stage with
    | sampleAlive | grace | join =>
      simp only [stopStep]
      split <;> exact ⟨x, by simpa using hx, .same _⟩
    | expectExit => exact ⟨_, by simp [stopStep, hx], .expect o choice hpc⟩
    | stopPolling => exact ⟨_, by simp [stopStep, hx], .unpoll o choice hpc⟩
    | stopChannels => exact ⟨_, by simp [stopStep, hx], .answer o choice hpc⟩
    | kill => exact ⟨_, by simp [stopStep, hx], .kill o choice hpc⟩
    | setStopped => exact ⟨_, by simp [stopStep, hx], .setStopped o choice hpc⟩
    | erase => exact ⟨x, by simpa [stopStep] using hx, .same _⟩
  · refine ⟨x, ?_, .same _⟩
    cases stage with
    | sampleAlive | grace | join =>
      simp only [stopStep]
      split <;> simpa using hx
    | _ => simp [stopStep, hij, hx]

theorem createStep_change (hx : s.sessions i = some x) {o j : Nat} {stage : CreateStage}
    (choice : Bool) (hpc : s.ops o = .creating stage j) :
    ∃ y, (createStep r s o j choice stage).sessions i = some y ∧
      Change s i x (.op o choice) y := by
  by_cases hij : i = j
  · subst hij
    cases stage with
    | awaitRegistration | startClient =>
      simp only [createStep]
      split
      · exact ⟨x, by simpa using hx, .same _⟩
      · exact ⟨_, by simp [hx], .drop o choice _ hpc⟩
    | listen => exact ⟨_, by simp [createStep, hx], .listen o choice hpc⟩
    | setReady => exact ⟨_, by simp [createStep, hx], .setReady o choice hpc⟩
    | insert => exact ⟨x, by simpa [createStep] using hx, .same _⟩
    | setPolling => exact ⟨_, by simp [createStep, hx], .setPolling o choice hpc⟩
    | startPoll => exact ⟨_, by simp [createStep, hx], .startPoll o choice hpc⟩
  · refine ⟨x, ?_, .same _⟩
    cases stage with
    | awaitRegistration | startClient =>
      simp only [createStep]
      split <;> simp [hij, hx]
    | _ => simp [createStep, hij, hx]

/-- **A step changes a session** in one of the ways of `Change`. -/
theorem change (hnumbered : Numbered s) (hx : s.sessions i = some x) (e : Event) :
    ∃ y, (step r s e).sessions i = some y ∧ Change s i x e y := by
  cases e with
  | op o choice =>
    show ∃ y, (opStep r s o choice).sessions i = some y ∧ _
    unfold opStep
    cases hpc : s.ops o with
    | stopping stage j => exact stopStep_change hx choice hpc
    | creating stage j => exact createStep_change hx choice hpc
    | spawn =>
      have : i ≠ s.launches := by
        rintro rfl
        simp [hnumbered _ (Nat.le_refl _)] at hx
      refine ⟨x, ?_, .same _⟩
      cases choice <;> simp [this, hx]
    | returned result => exact ⟨x, hx, .same _⟩
    | idle | unlock | restartErase => exact ⟨x, by simpa using hx, .same _⟩
    | _ =>
      refine ⟨x, ?_, .same _⟩
      simp only
      split <;> simpa using hx
  | poll j answered =>
    by_cases hij : i = j
    · subst hij
      refine ⟨_, ?_, .poll answered⟩
      simp only [step, pollStep]
      split <;> simp [hx]
    · refine ⟨x, ?_, .same _⟩
      simp only [step, pollStep]
      split <;> simp [hij, hx]
  | heartbeat j =>
    by_cases hij : i = j
    · subst hij
      refine ⟨_, ?_, .beat⟩
      simp only [step, heartbeatStep]
      split <;> simp [hx]
    · refine ⟨x, ?_, .same _⟩
      simp only [step, heartbeatStep]
      split <;> simp [hij, hx]
  | die j =>
    by_cases hij : i = j
    · subst hij
      exact ⟨_, by simp [step, hx], .die⟩
    · exact ⟨x, by simp [step, hij, hx], .same _⟩

/-- Operation `o` is at `spawn`, and starts its process. -/
def Spawns (s : State ι) (e : Event) (o : Nat) : Prop :=
  e = .op o true ∧ s.ops o = .spawn

omit [DecidableEq ι] in
theorem sessions_modify_none (hx : s.sessions i = none) (j : Nat) (f : Session ι → Session ι) :
    (s.modify j f).sessions i = none := by
  rw [State.modify_sessions]
  split
  · next hij => subst hij; rw [hx]; rfl
  · exact hx

/-- Only `spawn` makes a session. -/
theorem opStep_none (hx : s.sessions i = none) (o : Nat) (choice : Bool) :
    (opStep r s o choice).sessions i = none ∨
      Spawns s (.op o choice) o ∧ i = s.launches ∧
        (opStep r s o choice).sessions i = some { id := r.id o } := by
  cases hpc : s.ops o with
  | spawn =>
    unfold opStep
    rw [hpc]
    cases choice with
    | false => exact .inl (by simpa using hx)
    | true =>
      by_cases hi : i = s.launches
      · exact .inr ⟨⟨rfl, hpc⟩, hi, by simp [hi]⟩
      · exact .inl (by simp [hi, hx])
  | stopping stage j =>
    left
    unfold opStep
    rw [hpc]
    cases stage with
    | sampleAlive | grace | join =>
      simp only [stopStep]
      split <;> simpa using hx
    | _ => simp [stopStep, sessions_modify_none hx, hx, -State.modify_sessions]
  | creating stage j =>
    left
    unfold opStep
    rw [hpc]
    cases stage with
    | awaitRegistration | startClient =>
      simp only [createStep]
      split <;> simp [sessions_modify_none hx, hx, -State.modify_sessions]
    | _ => simp [createStep, sessions_modify_none hx, hx, -State.modify_sessions]
  | returned result => exact .inl (by simpa [opStep, hpc] using hx)
  | idle | unlock | restartErase => exact .inl (by simpa [opStep, hpc] using hx)
  | _ =>
    left
    simp only [opStep, hpc]
    split <;> simpa using hx

theorem change_none (hx : s.sessions i = none) (e : Event) :
    (step r s e).sessions i = none ∨
      ∃ o, Spawns s e o ∧ i = s.launches ∧ (step r s e).sessions i = some { id := r.id o } := by
  cases e with
  | op o choice =>
    rcases opStep_none (r := r) hx o choice with h | h
    · exact .inl h
    · exact .inr ⟨o, h⟩
  | poll j answered =>
    left
    simp only [step, pollStep]
    split <;> simp [sessions_modify_none hx, -State.modify_sessions]
  | heartbeat j =>
    left
    simp only [step, heartbeatStep]
    split <;> simp [sessions_modify_none hx, -State.modify_sessions]
  | die j => exact .inl (sessions_modify_none hx j _)

/-! ## What an operation leaves alone -/

theorem stopStep_frame (s : State ι) (o i : Nat) (choice : Bool) (stage : StopStage) :
    (stopStep r s o i choice stage).launches = s.launches ∧
      ∀ p, p ≠ o → (stopStep r s o i choice stage).ops p = s.ops p := by
  cases stage with
  | sampleAlive | grace | join =>
    simp only [stopStep]
    split <;> simp +contextual
  | _ => simp +contextual [stopStep]

theorem createStep_frame (s : State ι) (o j : Nat) (choice : Bool) (stage : CreateStage) :
    (createStep r s o j choice stage).launches = s.launches ∧
      ∀ p, p ≠ o → (createStep r s o j choice stage).ops p = s.ops p := by
  cases stage with
  | awaitRegistration | startClient =>
    simp only [createStep]
    split <;> simp +contextual
  | _ => simp +contextual [createStep]

theorem opStep_frame (s : State ι) (o : Nat) (choice : Bool) :
    ((opStep r s o choice).launches = s.launches ∨
        Spawns s (.op o choice) o ∧ (opStep r s o choice).launches = s.launches + 1) ∧
      ∀ p, p ≠ o → (opStep r s o choice).ops p = s.ops p := by
  unfold opStep
  cases hpc : s.ops o with
  | stopping stage j =>
    have := stopStep_frame (r := r) s o j choice stage
    exact ⟨.inl this.1, this.2⟩
  | creating stage j =>
    have := createStep_frame (r := r) s o j choice stage
    exact ⟨.inl this.1, this.2⟩
  | spawn => cases choice <;> simp +contextual [Spawns, hpc]
  | idle | unlock | restartErase | returned => simp +contextual
  | _ =>
    simp only
    split <;> simp +contextual

/-- An operation's step is the only one that moves it. -/
theorem ops_other {e : Event} {p : Nat} (he : ∀ choice, e ≠ .op p choice) :
    (step r s e).ops p = s.ops p := by
  cases e with
  | op o choice =>
    have hpo : p ≠ o := by
      rintro rfl
      exact he choice rfl
    exact (opStep_frame s o choice).2 p hpo
  | poll j answered =>
    simp only [step, pollStep]
    split <;> simp
  | heartbeat j =>
    simp only [step, heartbeatStep]
    split <;> simp
  | die j => simp [step]

theorem launches_le (e : Event) : s.launches ≤ (step r s e).launches := by
  cases e with
  | op o choice =>
    show _ ≤ (opStep r s o choice).launches
    rcases (opStep_frame (r := r) s o choice).1 with h | ⟨-, h⟩ <;> omega
  | poll j answered =>
    simp only [step, pollStep]
    split <;> simp
  | heartbeat j =>
    simp only [step, heartbeatStep]
    split <;> simp
  | die j => simp [step]

theorem Spawns.launches {e : Event} {o : Nat} (h : Spawns s e o) :
    (Registry.step r s e).launches = s.launches + 1 := by
  obtain ⟨rfl, hpc⟩ := h
  simp [Registry.step, opStep, hpc]

theorem Numbered.step (h : Numbered s) (e : Event) : Numbered (Registry.step r s e) := by
  intro i hi
  have hle := launches_le (r := r) (s := s) e
  rcases change_none (r := r) (h i (Nat.le_trans hle hi)) e with hnone | ⟨o, hspawn, rfl, -⟩
  · exact hnone
  · have := hspawn.launches (r := r)
    omega

end Change

/-! ## Every reachable state -/

theorem numbered : ∀ s, (system r).Reachable s → Numbered s := by
  apply Transition.System.invariant
  · rintro s rfl i -
    rfl
  · rintro s e s' - h rfl
    exact h.step e

/-- The operation that moves in an event. -/
def Event.mover : Event → Option Nat
  | .op o _ => some o
  | .poll _ _ | .heartbeat _ | .die _ => none

/-- **The registry refines its custody.** -/
theorem refines_custody :
    Transition.System.Simulation (system r) (custody r) custodyOf fun _ e => e.mover where
  init := by
    rintro s rfl
    rfl
  silent := by
    rintro s e s' - rfl he
    cases e with
    | op => cases he
    | poll i answered =>
      have hid : ∀ x : Session ι, (x.poll answered).id = x.id := fun x => by
        unfold Session.poll
        split <;> rfl
      simp only [step, pollStep]
      split <;> simp [custodyOf_note, custodyOf_modify, hid]
    | heartbeat i =>
      have hid : ∀ x : Session ι, x.beat.id = x.id := fun x => by
        unfold Session.beat
        split <;> rfl
      simp only [step, heartbeatStep]
      split <;> simp [custodyOf_note, custodyOf_modify, hid]
    | die i => exact custodyOf_modify _ _ fun _ => rfl
  visible := by
    rintro s e s' d hs rfl he
    cases e with
    | op o choice =>
      obtain rfl : o = d := Option.some.inj he
      exact opStep_move r s o choice (numbered r s hs _ (Nat.le_refl _))
    | _ => cases he

/-- Every reachable state is in sound custody. -/
theorem sound (s : State ι) (hs : (system r).Reachable s) : Sound r (custodyOf s) :=
  custody_sound r _ ((refines_custody r).reachable s hs)

section Building

variable {r} {s : State ι} {o p j : Nat} {stage : CreateStage}

omit [DecidableEq ι] in
theorem has_of_creating (h : s.ops p = .creating stage j) : Has (custodyOf s) p j := by
  show phaseOf (s.ops p) = _ ∨ phaseOf (s.ops p) = _
  rw [h]
  cases stage <;> simp [phaseOf]

/-- The session an operation is building exists. -/
theorem creating_session (hs : (system r).Reachable s) (h : s.ops p = .creating stage j) :
    ∃ x, s.sessions j = some x ∧ x.id = r.id p := by
  have howner := (sound r s hs).owner_has (has_of_creating h)
  exact Option.map_eq_some_iff.mp howner

/-- An operation is building the session it was building before, or has just made it. -/
theorem creating_before (hs : (system r).Reachable s) {e : Event}
    (h : (step r s e).ops p = .creating stage j) :
    (∃ stage', s.ops p = .creating stage' j) ∨ s.sessions j = none := by
  have hhas := has_of_creating h
  have hbefore : Has (custodyOf s) p j ∨ s.sessions j = none := by
    cases hmover : e.mover with
    | none =>
      rw [(refines_custody r).silent s e _ hs rfl hmover] at hhas
      exact .inl hhas
    | some o =>
      have hmove := (refines_custody r).visible s e _ o hs rfl hmover
      rcases Sound.has_before hmove hhas with hhas | ⟨-, hnew⟩
      · exact .inl hhas
      · exact .inr (Option.map_eq_none_iff.mp hnew)
  refine hbefore.imp_left fun hbefore => ?_
  change phaseOf (s.ops p) = _ ∨ phaseOf (s.ops p) = _ at hbefore
  cases hpc : s.ops p with
  | creating stage' k =>
    rw [hpc] at hbefore
    cases stage' <;> simp_all [phaseOf]
  | _ => simp [hpc, phaseOf] at hbefore

/-- The last step of a creation. -/
theorem startPoll_over {choice : Bool} (hpc : s.ops p = .creating .startPoll j) :
    (step r s (.op p choice)).ops p = finish r p (.created j) := by
  simp [step, opStep, hpc, createStep]

/-- The stages before the status listener is registered. -/
def CreateStage.early : CreateStage → Bool
  | .awaitRegistration | .startClient | .listen => true
  | .setReady | .insert | .setPolling | .startPoll => false

/-- A creation that has registered its listener is past doing so. -/
theorem early_before {e : Event} {stage' : CreateStage}
    (hpc : s.ops p = .creating stage' j) (h : (step r s e).ops p = .creating stage j)
    (hearly : stage.early = true) :
    stage'.early = true ∧ (stage' = .listen → ∀ choice, e ≠ .op p choice) := by
  by_cases he : ∀ choice, e ≠ .op p choice
  · rw [ops_other he, hpc] at h
    cases h
    exact ⟨hearly, fun _ => he⟩
  · obtain ⟨choice, rfl⟩ := not_forall_not.mp he
    simp only [step, opStep, hpc] at h
    cases stage' with
    | awaitRegistration | startClient => exact ⟨rfl, nofun⟩
    | startPoll =>
      simp only [createStep, State.goto_ops, if_true, finish] at h
      split at h <;> cases h
    | _ =>
      -- the next stage is not an early one
      simp only [createStep, State.goto_ops, if_true] at h
      cases h
      cases hearly

end Building

/-- The poll thread of a session that is being built has not started, and until its listener
is registered neither has what its heartbeat thread reports. -/
theorem unbegun (s : State ι) (hs : (system r).Reachable s) {p j : Nat} {stage : CreateStage}
    {x : Session ι} (hpc : s.ops p = .creating stage j) (hx : s.sessions j = some x) :
    x.pollThread = .notStarted ∧ (stage.early = true → x.heartbeat = .silent) := by
  induction hs generalizing p j stage x with
  | init h =>
    obtain rfl : _ = _ := h
    cases hpc
  | @step s s' e hs hstep ih =>
    obtain rfl : s' = step r s e := hstep
    rcases hbefore : s.sessions j with _ | x₀
    · rcases change_none (r := r) hbefore e with hnone | ⟨o, -, -, hnew⟩
      · rw [hnone] at hx
        cases hx
      · obtain rfl := Option.some.inj (hx.symm.trans hnew)
        exact ⟨rfl, fun _ => rfl⟩
    · obtain ⟨stage', hpc'⟩ : ∃ stage', s.ops p = .creating stage' j := by
        refine (creating_before hs hpc).resolve_right ?_
        rw [hbefore]
        simp
      obtain ⟨hthread, hsilent⟩ := ih hpc' hbefore
      have hsilent' : stage.early = true → x₀.heartbeat = .silent := fun hearly =>
        hsilent (early_before hpc' hpc hearly).1
      -- only `p` builds the session
      have hop : ∀ o stage, s.ops o = .creating stage j → o = p := fun o stage ho =>
        (sound r s hs).has_unique o p j (has_of_creating ho) (has_of_creating hpc')
      obtain ⟨y, hy, hchange⟩ := change (r := r) (numbered r s hs) hbefore e
      obtain rfl := Option.some.inj (hy.symm.trans hx)
      cases hchange with
      | startPoll o choice ho =>
        -- this step ends the creation
        have hop := hop o _ ho
        subst hop
        rw [startPoll_over ho] at hpc
        simp only [finish] at hpc
        split at hpc <;> cases hpc
      | listen o choice ho =>
        refine ⟨hthread, fun hearly => ?_⟩
        have hop := hop o _ ho
        subst hop
        exact absurd rfl ((early_before ho hpc hearly).2 rfl choice)
      | poll answered =>
        have : x₀.poll answered = x₀ := by simp [Session.poll, hthread]
        rw [this]
        exact ⟨hthread, hsilent'⟩
      | beat =>
        unfold Session.beat
        split <;> simp_all
      | answer o choice ho =>
        unfold answerStop
        split <;> simp_all
      | _ => exact ⟨hthread, hsilent'⟩

theorem unstarted (s : State ι) (hs : (system r).Reachable s) {p j : Nat} {stage : CreateStage}
    {x : Session ι} (hpc : s.ops p = .creating stage j) (hx : s.sessions j = some x) :
    x.pollThread = .notStarted :=
  (unbegun r s hs hpc hx).1

end Jovian.Registry
