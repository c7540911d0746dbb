import Jovian.Supervisor.KernelProcess

/-!
# Jovian — where a signal goes, and what `kill` leaves

Each object is at one `Stage` of its process's life, and which ids are its process's follows
from the stage. A step of one object leaves the others' stages alone (`Stage.frame`): an id
that is not free is given to nobody, and only its owner's wait frees it.
-/

namespace Jovian.KernelProcess

variable {w w' : World} {k k' pid : Nat} {q : Kernel} {untraced : Bool} {status : WaitStatus}

/-- How far the object `k` is with its process. -/
inductive Stage (w : World) (k : Nat) : Prop where
  /-- Not started, or `start` has failed. -/
  | idle (hid : (w.kernels k).processId = none) (hreaped : (w.kernels k).reaped = false)
      (hcall : (w.kernels k).call = .none) (hnone : ∀ pid, w.owner pid ≠ some k)
  | starting (pid : Nat) (hlaunched : (w.kernels k).launched = true)
      (hid : (w.kernels k).processId = none) (hreaped : (w.kernels k).reaped = false)
      (hcall : (w.kernels k).call = .starting pid) (hheld : ∀ pid', w.owner pid' = some k ↔ pid' = pid)
  | there (pid : Nat) (hlaunched : (w.kernels k).launched = true)
      (hid : (w.kernels k).processId = some pid) (hreaped : (w.kernels k).reaped = false)
      (hcall : ∀ pid', (w.kernels k).call ≠ .starting pid')
      (hheld : ∀ pid', w.owner pid' = some k ↔ pid' = pid)
  /-- Waited for. -/
  | gone (e : Ending) (hlaunched : (w.kernels k).launched = true)
      (hreaped : (w.kernels k).reaped = true)
      (hcall : (w.kernels k).call = .none ∨ (w.kernels k).call = .killing)
      (hstatus : (w.kernels k).exitStatus = .ended e) (hfate : w.fate k = some e)
      (hnone : ∀ pid, w.owner pid ≠ some k)
  /-- A stop was taken for the end. -/
  | left (sig pid : Nat) (hlaunched : (w.kernels k).launched = true)
      (hreaped : (w.kernels k).reaped = true)
      (hcall : (w.kernels k).call = .none ∨ (w.kernels k).call = .killing)
      (hstatus : (w.kernels k).exitStatus = .stopped sig)
      (hheld : ∀ pid', w.owner pid' = some k ↔ pid' = pid)

/-- What holds of the world between any two system calls. -/
structure Sound (w : World) : Prop where
  stage : ∀ k, Stage w k
  fresh : ∀ k, (w.kernels k).launched = false → w.fate k = none
  /-- The table holds a process until it is waited for, as it ended. -/
  phases : ∀ pid k phase, w.procs pid = some ⟨some k, phase⟩ → w.fate k = phase.ending?
  signals : ∀ sent ∈ w.signals, sent.got.bind Proc.owner = some sent.kernel
  described : ∀ answer ∈ w.described, answer.2 = neverStarted ∨ answer.2 = stillRunning ∨
    (∃ e, w.fate answer.1 = some e ∧ answer.2 = (WaitStatus.ended e).text) ∨
    ∃ sig, answer.2 = (WaitStatus.stopped sig).text
  failures : w.failures = []

/-! ## What a step leaves alone -/

/-- An object's stage is read off its own fields, its ids and its fate. -/
theorem Stage.frame (h : Stage w k) (hk : w'.kernels k = w.kernels k)
    (howner : ∀ pid, w'.owner pid = some k ↔ w.owner pid = some k)
    (hfate : w'.fate k = w.fate k ∨ ∃ pid, w.owner pid = some k) : Stage w' k := by
  cases h with
  | idle hid hreaped hcall hnone =>
    rw [← hk] at hid hreaped hcall
    exact .idle hid hreaped hcall fun pid h => hnone pid ((howner pid).mp h)
  | starting pid hlaunched hid hreaped hcall hheld =>
    rw [← hk] at hlaunched hid hreaped hcall
    exact .starting pid hlaunched hid hreaped hcall fun pid' => (howner pid').trans (hheld pid')
  | there pid hlaunched hid hreaped hcall hheld =>
    rw [← hk] at hlaunched hid hreaped hcall
    exact .there pid hlaunched hid hreaped hcall fun pid' => (howner pid').trans (hheld pid')
  | gone e hlaunched hreaped hcall hstatus hend hnone =>
    rw [← hk] at hlaunched hreaped hcall hstatus
    refine .gone e hlaunched hreaped hcall hstatus ?_ fun pid h => hnone pid ((howner pid).mp h)
    -- an object that has been waited for has nothing that could still end
    rcases hfate with hfate | ⟨pid, hpid⟩
    · exact hfate.trans hend
    · exact absurd hpid (hnone pid)
  | left sig pid hlaunched hreaped hcall hstatus hheld =>
    rw [← hk] at hlaunched hreaped hcall hstatus
    exact .left sig pid hlaunched hreaped hcall hstatus fun pid' => (howner pid').trans (hheld pid')

theorem Stage.there_of (h : Stage w k) (hid : (w.kernels k).processId = some pid)
    (hreaped : (w.kernels k).reaped = false) :
    (w.kernels k).launched = true ∧ (∀ pid', (w.kernels k).call ≠ .starting pid') ∧
      ∀ pid', w.owner pid' = some k ↔ pid' = pid := by
  cases h with
  | idle hid' => exact absurd (hid'.symm.trans hid) nofun
  | starting _ _ hid' => exact absurd (hid'.symm.trans hid) nofun
  | there pid' hlaunched hid' _ hcall hheld =>
    have hpid : pid' = pid := Option.some_inj.mp (hid'.symm.trans hid)
    subst hpid
    exact ⟨hlaunched, hcall, hheld⟩
  | gone _ _ hreaped' => exact absurd (hreaped'.symm.trans hreaped) nofun
  | left _ _ _ hreaped' => exact absurd (hreaped'.symm.trans hreaped) nofun

theorem Stage.launched_of_owner (h : Stage w k) (hpid : w.owner pid = some k) :
    (w.kernels k).launched = true := by
  cases h with
  | idle _ _ _ hnone => exact absurd hpid (hnone pid)
  | starting _ hlaunched => exact hlaunched
  | there _ hlaunched => exact hlaunched
  | gone _ hlaunched => exact hlaunched
  | left _ _ hlaunched => exact hlaunched

/-- An object has one process at a time. -/
theorem Stage.owner_unique {pid' : Nat} (h : Stage w k) (hpid : w.owner pid = some k)
    (hpid' : w.owner pid' = some k) : pid = pid' := by
  cases h with
  | idle _ _ _ hnone => exact absurd hpid (hnone pid)
  | starting _ _ _ _ _ hheld => exact ((hheld pid).mp hpid).trans ((hheld pid').mp hpid').symm
  | there _ _ _ _ _ hheld => exact ((hheld pid).mp hpid).trans ((hheld pid').mp hpid').symm
  | gone _ _ _ _ _ _ hnone => exact absurd hpid (hnone pid)
  | left _ _ _ _ _ _ hheld => exact ((hheld pid).mp hpid).trans ((hheld pid').mp hpid').symm

/-- A step of the object `k` that leaves the table alone. -/
theorem Sound.setKernel (h : Sound w) (hlaunched : q.launched = (w.kernels k).launched)
    (hk : Stage (w.setKernel k q) k) : Sound (w.setKernel k q) where
  stage k' := by
    by_cases hne : k' = k
    · exact hne ▸ hk
    · exact (h.stage k').frame (World.kernels_setKernel_ne hne) (fun _ => Iff.rfl) (.inl rfl)
  fresh k' hk' := by
    by_cases hne : k' = k
    · subst hne
      exact h.fresh k' (by rw [← hlaunched]; simpa using hk')
    · exact h.fresh k' (by rwa [World.kernels_setKernel_ne hne] at hk')
  phases := h.phases
  signals := h.signals
  described := h.described
  failures := h.failures

/-- What is said of one process changes; whose it is does not. -/
theorem Sound.setPhase (h : Sound w) {p : Proc} (hp : p.owner = w.owner pid)
    (hfate : ∀ k, p.owner = some k → w.fate k = p.phase.ending?) : Sound (w.setProc pid (some p)) where
  stage k := by
    have howner : (w.setProc pid (some p)).owner = w.owner := World.owner_setProc_same hp
    exact (h.stage k).frame rfl (fun pid' => by rw [howner]) (.inl rfl)
  fresh := h.fresh
  phases pid' k phase hpid' := by
    by_cases hne : pid' = pid
    · subst hne
      have hpeq : p = ⟨some k, phase⟩ := by simpa [World.setProc] using hpid'
      subst hpeq
      exact hfate k rfl
    · exact h.phases pid' k phase (by simpa [World.setProc, hne] using hpid')
  signals := h.signals
  described := h.described
  failures := h.failures

/-! ## Waiting -/

theorem owner_eq {p : Proc} (h : w.procs pid = some p) : w.owner pid = p.owner := by
  simp [World.owner, h]

/-- A child's wait does not fail: it reports the end, a stop that is asked for, or nothing. -/
theorem waitpid_cases (untraced : Bool) (h : w.owner pid = some k) :
    (∃ e, w.procs pid = some ⟨some k, .zombie e⟩ ∧
      waitpid w.procs pid untraced = (.pid (.ended e), Function.update w.procs pid none)) ∨
    (∃ sig, untraced = true ∧ w.procs pid = some ⟨some k, .stopped sig false⟩ ∧
      waitpid w.procs pid untraced =
        (.pid (.stopped sig), Function.update w.procs pid (some ⟨some k, .stopped sig true⟩))) ∨
    waitpid w.procs pid untraced = (.zero, w.procs) := by
  cases hp : w.procs pid with
  | none => simp [World.owner, hp] at h
  | some p =>
    have howner : p.owner = some k := (owner_eq hp).symm.trans h
    obtain ⟨owner, phase⟩ := p
    obtain rfl : owner = some k := howner
    cases phase with
    | running => exact .inr (.inr (by simp [waitpid, hp]))
    | zombie e => exact .inl ⟨e, rfl, by simp [waitpid, hp]⟩
    | stopped sig told =>
      cases told with
      | true => exact .inr (.inr (by simp [waitpid, hp]))
      | false =>
        cases untraced with
        | true => exact .inr (.inl ⟨sig, rfl, rfl, by simp [waitpid, hp]⟩)
        | false => exact .inr (.inr (by simp [waitpid, hp]))

/-- The world once `k`'s process has been waited for. -/
def reap (w : World) (k pid : Nat) (status : WaitStatus) (p : Option Proc) : World :=
  (w.setProc pid p).setKernel k { w.kernels k with reaped := true, exitStatus := status }

/-- Freeing an id: the other objects' are as they were. -/
theorem Sound.free (h : Sound w) (hpid : w.owner pid = some k) :
    (∀ k', k' ≠ k → Stage (w.setProc pid none) k') ∧
      ∀ pid', (w.setProc pid none).owner pid' = some k ↔ pid' ≠ pid ∧ w.owner pid' = some k := by
  constructor
  · intro k' hne
    refine (h.stage k').frame rfl (fun pid' => ?_) (.inl rfl)
    rw [World.owner_setProc]
    by_cases hpid' : pid' = pid
    · subst hpid'
      simp [hpid, Ne.symm hne]
    · rw [Function.update_of_ne hpid']
  · intro pid'
    rw [World.owner_setProc]
    by_cases hpid' : pid' = pid
    · simp [hpid']
    · rw [Function.update_of_ne hpid']
      simp [hpid']

theorem Sound.reap_zombie (h : Sound w) {e : Ending} (hid : (w.kernels k).processId = some pid)
    (hreaped : (w.kernels k).reaped = false)
    (hcall : (w.kernels k).call = .none ∨ (w.kernels k).call = .killing)
    (hp : w.procs pid = some ⟨some k, .zombie e⟩) : Sound (reap w k pid (.ended e) none) where
  stage k' := by
    obtain ⟨hlaunched, -, hheld⟩ := (h.stage k).there_of hid hreaped
    obtain ⟨hothers, hfreed⟩ := h.free (owner_eq hp)
    by_cases hne : k' = k
    · subst hne
      refine .gone e ?_ ?_ ?_ ?_ (h.phases pid k' _ hp) fun pid' hpid' => ?_
      · simpa [reap] using hlaunched
      · simp [reap]
      · simpa [reap] using hcall
      · simp [reap]
      · obtain ⟨hpid', howner⟩ := (hfreed pid').mp hpid'
        exact hpid' ((hheld pid').mp howner)
    · exact (hothers k' hne).frame (World.kernels_setKernel_ne hne) (fun _ => Iff.rfl) (.inl rfl)
  fresh k' hk' := by
    by_cases hne : k' = k
    · subst hne
      exact h.fresh k' (by simpa [reap] using hk')
    · exact h.fresh k' (by simpa [reap, World.kernels_setKernel_ne hne] using hk')
  phases pid' k' phase hpid' := by
    by_cases hne : pid' = pid
    · subst hne
      simp [reap, World.setProc] at hpid'
    · exact h.phases pid' k' phase (by simpa [reap, World.setProc, hne] using hpid')
  signals := h.signals
  described := h.described
  failures := h.failures

theorem Sound.reap_stopped (h : Sound w) {sig : Nat} (hid : (w.kernels k).processId = some pid)
    (hreaped : (w.kernels k).reaped = false)
    (hcall : (w.kernels k).call = .none ∨ (w.kernels k).call = .killing)
    (hp : w.procs pid = some ⟨some k, .stopped sig false⟩) :
    Sound (reap w k pid (.stopped sig) (some ⟨some k, .stopped sig true⟩)) := by
  obtain ⟨hlaunched, -, hheld⟩ := (h.stage k).there_of hid hreaped
  have hphase : Sound (w.setProc pid (some ⟨some k, .stopped sig true⟩)) :=
    h.setPhase (owner_eq hp).symm fun k' hk' => by
      cases hk'
      have hfate := h.phases pid k _ hp
      exact hfate
  have howner : (w.setProc pid (some ⟨some k, .stopped sig true⟩)).owner = w.owner :=
    World.owner_setProc_same (owner_eq hp).symm
  refine hphase.setKernel rfl (.left sig pid ?_ ?_ ?_ ?_ fun pid' => ?_)
  · simpa using hlaunched
  · simp
  · simpa using hcall
  · simp
  · rw [World.owner_setKernel, howner]
    exact hheld pid'

/-- **`waitpidCached`**: the wait keeps the world sound, does not fail, and changes nothing when
it finds nothing. -/
theorem Sound.waitpidCached (h : Sound w) (untraced : Bool) (hid : (w.kernels k).processId = some pid)
    (hcall : (w.kernels k).call = .none ∨ (w.kernels k).call = .killing) :
    ((w.waitpidCached k pid untraced).1 = .zero ∧ (w.kernels k).reaped = false ∧
        (w.waitpidCached k pid untraced).2 = w) ∨
      ∃ status, (w.waitpidCached k pid untraced).1 = .pid status ∧
        Sound (w.waitpidCached k pid untraced).2 ∧
        (w.waitpidCached k pid untraced).2.described = w.described ∧
        (w.waitpidCached k pid untraced).2.kernels k =
          { w.kernels k with reaped := true, exitStatus := status } := by
  cases hreaped : (w.kernels k).reaped with
  | true =>
    refine .inr ⟨(w.kernels k).exitStatus, ?_⟩
    have hk : w.kernels k = { w.kernels k with reaped := true, exitStatus := (w.kernels k).exitStatus } := by
      rw [← hreaped]
    simp only [World.waitpidCached, hreaped, if_true]
    exact ⟨trivial, h, trivial, hk⟩
  | false =>
    have hpid : w.owner pid = some k := (((h.stage k).there_of hid hreaped).2.2 pid).mpr rfl
    rcases waitpid_cases untraced hpid with ⟨e, hp, hw⟩ | ⟨sig, -, hp, hw⟩ | hw
    · refine .inr ⟨.ended e, ?_⟩
      simp only [World.waitpidCached, hreaped, Bool.false_eq_true, if_false, hw]
      exact ⟨trivial, h.reap_zombie hid hreaped hcall hp, rfl, World.kernels_setKernel⟩
    · refine .inr ⟨.stopped sig, ?_⟩
      simp only [World.waitpidCached, hreaped, Bool.false_eq_true, if_false, hw]
      exact ⟨trivial, h.reap_stopped hid hreaped hcall hp, rfl, World.kernels_setKernel⟩
    · refine .inl ?_
      simp only [World.waitpidCached, hreaped, Bool.false_eq_true, if_false, hw]
      exact ⟨trivial, trivial, trivial⟩

theorem Sound.isAlive (h : Sound w) (hcall : (w.kernels k).call = .none) :
    Sound (w.isAlive k).2 ∧ ((w.isAlive k).1 = true →
      (w.isAlive k).2 = w ∧ (w.kernels k).reaped = false ∧ ∃ pid, (w.kernels k).processId = some pid) := by
  cases hid : (w.kernels k).processId with
  | none => simpa [World.isAlive, hid] using h
  | some pid =>
    rcases h.waitpidCached false hid (.inl hcall) with ⟨hzero, hreaped, hw⟩ | ⟨status, hpid, hw, -⟩
    · simp only [World.isAlive, hid, hw]
      exact ⟨h, fun _ => ⟨trivial, hreaped, pid, rfl⟩⟩
    · simp only [World.isAlive, hid, hpid]
      exact ⟨hw, nofun⟩

/-! ## The system's steps -/

theorem Sound.ends (h : Sound w) (e : Ending) {phase : Phase} (hp : w.procs pid = some ⟨some k, phase⟩)
    (halive : phase.ending? = none) :
    Sound { w.setProc pid (some ⟨some k, .zombie e⟩) with fate := Function.update w.fate k (some e) } := by
  have howner : (w.setProc pid (some ⟨some k, .zombie e⟩)).owner = w.owner :=
    World.owner_setProc_same (owner_eq hp).symm
  have hfate : w.fate k = none := (h.phases pid k phase hp).trans halive
  have hnotgone : ∃ pid, w.owner pid = some k := ⟨pid, owner_eq hp⟩
  refine ⟨fun k' => ?_, fun k' hk' => ?_, fun pid' k' phase' hpid' => ?_, h.signals, fun answer hanswer => ?_,
    h.failures⟩
  · refine (h.stage k').frame rfl (fun pid' => ?_) ?_
    · show (w.setProc pid _).owner pid' = _ ↔ _
      rw [howner]
    · by_cases hne : k' = k
      · exact .inr (hne ▸ hnotgone)
      · exact .inl (Function.update_of_ne hne ..)
  · by_cases hne : k' = k
    · subst hne
      exact absurd (((h.stage k').launched_of_owner (owner_eq hp)).symm.trans hk') nofun
    · exact (Function.update_of_ne hne ..).trans (h.fresh k' hk')
  · by_cases hne : pid' = pid
    · subst hne
      have hpeq : k = k' ∧ Phase.zombie e = phase' := by simpa [World.setProc] using hpid'
      obtain ⟨rfl, rfl⟩ := hpeq
      exact Function.update_self ..
    · have hpid'' : w.procs pid' = some ⟨some k', phase'⟩ := by
        simpa [World.setProc, hne] using hpid'
      have hk : k' ≠ k := by
        rintro rfl
        exact hne ((h.stage k').owner_unique (owner_eq hpid'') (owner_eq hp))
      exact (Function.update_of_ne hk ..).trans (h.phases pid' k' phase' hpid'')
  · rcases h.described answer hanswer with hnever | hrunning | ⟨e', he', htext⟩ | hstopped
    · exact .inl hnever
    · exact .inr (.inl hrunning)
    · refine .inr (.inr (.inl ⟨e', ?_, htext⟩))
      have hne : answer.1 ≠ k := by
        rintro heq
        rw [heq, hfate] at he'
        exact absurd he'.symm (Option.some_ne_none e')
      exact (Function.update_of_ne hne ..).trans he'
    · exact .inr (.inr (.inr hstopped))

theorem Sound.foreign (h : Sound w) {p : Option Proc} (hw : w.owner pid = none) (hp : p.bind Proc.owner = none) :
    Sound (w.setProc pid p) where
  stage k := by
    have howner : (w.setProc pid p).owner = w.owner := World.owner_setProc_same (hp.trans hw.symm)
    exact (h.stage k).frame rfl (fun pid' => by rw [howner]) (.inl rfl)
  fresh := h.fresh
  phases pid' k phase hpid' := by
    by_cases hne : pid' = pid
    · subst hne
      have hpeq : p = some ⟨some k, phase⟩ := by simpa [World.setProc] using hpid'
      rw [hpeq] at hp
      exact absurd hp (Option.some_ne_none k)
    · exact h.phases pid' k phase (by simpa [World.setProc, hne] using hpid')
  signals := h.signals
  described := h.described
  failures := h.failures

/-! ## The objects' steps -/

theorem Sound.fork (h : Sound w) (hlaunched : (w.kernels k).launched = false) (hp : w.procs pid = none) :
    Sound ((w.setProc pid (some ⟨some k, .running⟩)).setKernel k
      { w.kernels k with launched := true, call := .starting pid }) := by
  have howner : ∀ pid', w.owner pid' ≠ some k := fun pid' hpid' =>
    absurd (((h.stage k).launched_of_owner hpid').symm.trans hlaunched) nofun
  have hfree : w.owner pid = none := by simp [World.owner, hp]
  refine ⟨fun k' => ?_, fun k' hk' => ?_, fun pid' k' phase hpid' => ?_, h.signals, h.described, h.failures⟩
  · by_cases hne : k' = k
    · subst hne
      cases h.stage k' with
      | idle hid hreaped =>
        refine .starting pid (by simp) (by simpa using hid) (by simpa using hreaped) (by simp) fun pid' => ?_
        rw [World.owner_setKernel, World.owner_setProc]
        by_cases hpid : pid' = pid
        · simp [hpid]
        · simpa [hpid] using howner pid'
      | starting _ hlaunched' => exact absurd (hlaunched'.symm.trans hlaunched) nofun
      | there _ hlaunched' => exact absurd (hlaunched'.symm.trans hlaunched) nofun
      | gone _ hlaunched' => exact absurd (hlaunched'.symm.trans hlaunched) nofun
      | left _ _ hlaunched' => exact absurd (hlaunched'.symm.trans hlaunched) nofun
    · refine (h.stage k').frame (World.kernels_setKernel_ne hne) (fun pid' => ?_) (.inl rfl)
      rw [World.owner_setKernel, World.owner_setProc]
      by_cases hpid : pid' = pid
      · subst hpid
        simp [hfree, Ne.symm hne]
      · rw [Function.update_of_ne hpid]
  · by_cases hne : k' = k
    · subst hne
      exact absurd hk' (by simp)
    · exact h.fresh k' (by simpa [World.kernels_setKernel_ne hne] using hk')
  · by_cases hne : pid' = pid
    · subst hne
      have hpeq : k = k' ∧ Phase.running = phase := by simpa [World.setProc] using hpid'
      obtain ⟨rfl, rfl⟩ := hpeq
      exact h.fresh k hlaunched
    · exact h.phases pid' k' phase (by simpa [World.setProc, hne] using hpid')

/-- The child has failed to run the kernel: it is waited for, and `start` throws. -/
theorem Sound.execFailed (h : Sound w) {e : Ending} (hcall : (w.kernels k).call = .starting pid)
    (hp : w.procs pid = some ⟨some k, .zombie e⟩) :
    Sound ((w.setProc pid none).setKernel k { w.kernels k with call := .none }) := by
  obtain ⟨hothers, hfreed⟩ := h.free (owner_eq hp)
  refine ⟨fun k' => ?_, fun k' hk' => ?_, fun pid' k' phase hpid' => ?_, h.signals, h.described, h.failures⟩
  · by_cases hne : k' = k
    · subst hne
      cases h.stage k' with
      | idle _ _ hcall' => exact absurd (hcall'.symm.trans hcall) nofun
      | starting pid' hlaunched hid hreaped hcall' hheld =>
        refine .idle (by simpa using hid) (by simpa using hreaped) (by simp) fun pid'' hpid'' => ?_
        have hfree := (hfreed pid'').mp hpid''
        exact hfree.1 ((h.stage k').owner_unique hfree.2 (owner_eq hp))
      | there _ _ _ _ hcall' => exact absurd hcall (hcall' pid)
      | gone _ _ _ hcall' => rcases hcall' with hcall' | hcall' <;> exact absurd (hcall'.symm.trans hcall) nofun
      | left _ _ _ _ hcall' => rcases hcall' with hcall' | hcall' <;> exact absurd (hcall'.symm.trans hcall) nofun
    · exact (hothers k' hne).frame (World.kernels_setKernel_ne hne) (fun _ => Iff.rfl) (.inl rfl)
  · by_cases hne : k' = k
    · subst hne
      exact h.fresh k' (by simpa using hk')
    · exact h.fresh k' (by simpa [World.kernels_setKernel_ne hne] using hk')
  · by_cases hne : pid' = pid
    · subst hne
      simp [World.setProc] at hpid'
    · exact h.phases pid' k' phase (by simpa [World.setProc, hne] using hpid')

/-- A signal to the sender's own process. -/
theorem Sound.send (h : Sound w) (sig : Signal) (hpid : w.owner pid = some k) : Sound (w.send k pid sig) where
  stage k' := (h.stage k').frame rfl (fun _ => Iff.rfl) (.inl rfl)
  fresh := h.fresh
  phases := h.phases
  signals sent hsent := by
    rcases List.mem_append.mp hsent with hold | hnew
    · exact h.signals sent hold
    · obtain rfl := List.mem_singleton.mp hnew
      exact hpid
  described := h.described
  failures := h.failures

/-- What `describeStatus` says of what it finds. -/
theorem Sound.describeStatus (h : Sound w) (hcall : (w.kernels k).call = .none) :
    Sound { (w.describeStatus k).2 with
      described := (w.describeStatus k).2.described ++ [(k, (w.describeStatus k).1)] } := by
  have hsound : ∀ w' : World, Sound w' → ∀ text, (text = neverStarted ∨ text = stillRunning ∨
      (∃ e, w'.fate k = some e ∧ text = (WaitStatus.ended e).text) ∨
      ∃ sig, text = (WaitStatus.stopped sig).text) →
      Sound { w' with described := w'.described ++ [(k, text)] } := by
    intro w' hw' text htext
    refine ⟨fun k' => (hw'.stage k').frame rfl (fun _ => Iff.rfl) (.inl rfl), hw'.fresh, hw'.phases,
      hw'.signals, fun answer hanswer => ?_, hw'.failures⟩
    rcases List.mem_append.mp hanswer with hold | hnew
    · exact hw'.described answer hold
    · obtain rfl := List.mem_singleton.mp hnew
      exact htext
  cases hid : (w.kernels k).processId with
  | none =>
    simp only [World.describeStatus, hid]
    exact hsound w h _ (.inl rfl)
  | some pid =>
    rcases h.waitpidCached true hid (.inl hcall) with ⟨hzero, -, hw⟩ | ⟨status, hpid, hw, -, hk⟩
    · have heq : w.waitpidCached k pid true = (.zero, w) := Prod.ext hzero hw
      simp only [World.describeStatus, hid, heq]
      exact hsound w h _ (.inr (.inl rfl))
    · have heq : w.waitpidCached k pid true = (.pid status, (w.waitpidCached k pid true).2) :=
        Prod.ext hpid rfl
      rw [World.describeStatus, hid]
      dsimp only
      rw [heq]
      refine hsound _ hw _ (.inr (.inr ?_))
      have hreaped : ((w.waitpidCached k pid true).2.kernels k).reaped = true := by rw [hk]
      cases hw.stage k with
      | idle _ hreaped' => exact absurd (hreaped.symm.trans hreaped') nofun
      | starting _ _ _ hreaped' => exact absurd (hreaped.symm.trans hreaped') nofun
      | there _ _ _ hreaped' => exact absurd (hreaped.symm.trans hreaped') nofun
      | gone e _ _ _ hstatus hfate => exact .inl ⟨e, hfate, congrArg WaitStatus.text hstatus⟩
      | left sig _ _ _ _ hstatus => exact .inr ⟨sig, congrArg WaitStatus.text hstatus⟩

/-- A call that waits for nothing: the object's fields, of what its stage says. -/
theorem Stage.forget (h : Stage w k) (hreaped : (w.kernels k).reaped = true) :
    Stage (w.setKernel k { w.kernels k with processId := none, call := .none }) k := by
  cases h with
  | idle _ hreaped' => exact absurd (hreaped.symm.trans hreaped') nofun
  | starting _ _ _ hreaped' => exact absurd (hreaped.symm.trans hreaped') nofun
  | there _ _ _ hreaped' => exact absurd (hreaped.symm.trans hreaped') nofun
  | gone e hlaunched _ _ hstatus hfate hnone =>
    exact .gone e (by simpa using hlaunched) (by simpa using hreaped) (by simp) (by simpa using hstatus) hfate hnone
  | left sig pid hlaunched _ _ hstatus hheld =>
    exact .left sig pid (by simpa using hlaunched) (by simpa using hreaped) (by simp) (by simpa using hstatus) hheld

theorem Stage.call (h : Stage w k) (hid : (w.kernels k).processId = some pid)
    (hreaped : (w.kernels k).reaped = false) {c : Call} (hc : ∀ pid, c ≠ .starting pid) :
    Stage (w.setKernel k { w.kernels k with call := c }) k := by
  obtain ⟨hlaunched, -, hheld⟩ := h.there_of hid hreaped
  exact .there pid (by simpa using hlaunched) (by simpa using hid) (by simpa using hreaped)
    (by simpa using hc) hheld

/-- The object whose `start` is under way, or whose signal is to come, has not been waited for. -/
theorem Stage.interrupting (h : Stage w k) (hcall : (w.kernels k).call = .interrupting) :
    (w.kernels k).reaped = false := by
  cases h with
  | idle _ hreaped => exact hreaped
  | starting _ _ _ hreaped => exact hreaped
  | there _ _ _ hreaped => exact hreaped
  | gone _ _ _ hcall' => rcases hcall' with hcall' | hcall' <;> exact absurd (hcall'.symm.trans hcall) nofun
  | left _ _ _ _ hcall' => rcases hcall' with hcall' | hcall' <;> exact absurd (hcall'.symm.trans hcall) nofun

theorem Stage.starting_of (h : Stage w k) (hcall : (w.kernels k).call = .starting pid) :
    (w.kernels k).launched = true ∧ (w.kernels k).processId = none ∧ (w.kernels k).reaped = false ∧
      ∀ pid', w.owner pid' = some k ↔ pid' = pid := by
  cases h with
  | idle _ _ hcall' => exact absurd (hcall'.symm.trans hcall) nofun
  | starting pid' hlaunched hid hreaped hcall' hheld =>
    have hpid : pid' = pid := by
      have heq := hcall'.symm.trans hcall
      injection heq
    subst hpid
    exact ⟨hlaunched, hid, hreaped, hheld⟩
  | there _ _ _ _ hcall' => exact absurd hcall (hcall' pid)
  | gone _ _ _ hcall' => rcases hcall' with hcall' | hcall' <;> exact absurd (hcall'.symm.trans hcall) nofun
  | left _ _ _ _ hcall' => rcases hcall' with hcall' | hcall' <;> exact absurd (hcall'.symm.trans hcall) nofun

/-! ## Every step, every run -/

/-- The system's step at an id: what is said of the child there, or nothing. -/
theorem Sound.system_step (h : Sound w) (pid : Nat) (e : Ending) (sig : Nat) :
    Sound (step w (.ends pid e)) ∧ Sound (step w (.stops pid sig)) ∧ Sound (step w (.continues pid)) ∧
      Sound (step w (.foreignForks pid)) ∧ Sound (step w (.foreignGone pid)) := by
  cases hp : w.procs pid with
  | none =>
    have hfree : w.owner pid = none := by simp [World.owner, hp]
    simp only [step, hp]
    exact ⟨h, h, h, h.foreign hfree rfl, h⟩
  | some p =>
    obtain ⟨owner, phase⟩ := p
    cases owner with
    | none =>
      simp only [step, hp]
      exact ⟨h, h, h, h, h.foreign (owner_eq hp) rfl⟩
    | some k =>
      have hfate := h.phases pid k phase hp
      cases phase with
      | running =>
        simp only [step, hp]
        refine ⟨h.ends e hp rfl, h.setPhase (owner_eq hp).symm fun k' hk' => ?_, h, h, h⟩
        cases hk'
        exact hfate
      | stopped sig' told =>
        simp only [step, hp]
        refine ⟨h.ends e hp rfl, h, h.setPhase (owner_eq hp).symm fun k' hk' => ?_, h, h⟩
        cases hk'
        exact hfate
      | zombie e' =>
        simp only [step, hp]
        exact ⟨h, h, h, h, h⟩

theorem Sound.execRead (h : Sound w) (failed : Bool) : Sound (step w (.execRead k failed)) := by
  cases hcall : (w.kernels k).call with
  | none => simpa only [step, hcall] using h
  | interrupting => simpa only [step, hcall] using h
  | killing => simpa only [step, hcall] using h
  | starting pid =>
    obtain ⟨hlaunched, -, hreaped, hheld⟩ := (h.stage k).starting_of hcall
    have hpid : w.owner pid = some k := (hheld pid).mpr rfl
    cases failed with
    | true =>
      rcases waitpid_cases false hpid with ⟨e, hp, hw⟩ | ⟨sig, huntraced, -⟩ | hw
      · simp only [step, hcall, if_true, hw]
        exact h.execFailed hcall hp
      · exact absurd huntraced Bool.false_ne_true
      · simpa only [step, hcall, if_true, hw] using h
    | false =>
      simp only [step, hcall, Bool.false_eq_true, if_false]
      refine h.setKernel rfl (.there pid ?_ ?_ ?_ ?_ hheld)
      · simpa using hlaunched
      · simp
      · simpa using hreaped
      · simp

theorem Sound.interrupt (h : Sound w) : Sound (step w (.interrupt k)) := by
  by_cases hcall : (w.kernels k).call = .none ∧ (w.kernels k).interruptBySignal = true
  · obtain ⟨hsound, htrue⟩ := h.isAlive hcall.1
    cases halive : w.isAlive k with
    | mk alive w' =>
      rw [halive] at hsound htrue
      simp only [step, if_pos hcall, halive]
      cases alive with
      | false => exact hsound
      | true =>
        obtain ⟨rfl, hreaped, pid, hid⟩ := htrue rfl
        exact hsound.setKernel rfl ((hsound.stage k).call hid hreaped fun _ => nofun)
  · simpa only [step, if_neg hcall] using h

theorem Sound.sigint (h : Sound w) : Sound (step w (.sigint k)) := by
  cases hcall : (w.kernels k).call with
  | none => simpa only [step, hcall] using h
  | starting pid => simpa only [step, hcall] using h
  | killing => simpa only [step, hcall] using h
  | interrupting =>
    cases hid : (w.kernels k).processId with
    | none => simpa only [step, hcall, hid] using h
    | some pid =>
      have hstep : step w (.sigint k) =
          (w.send k pid .sigint).setKernel k { w.kernels k with call := .none } := by
        simp only [step, hcall, hid]
      rw [hstep]
      -- between `isAlive` and the signal nobody has waited for the process: its id is still its own
      have hreaped := (h.stage k).interrupting hcall
      have hpid : w.owner pid = some k := (((h.stage k).there_of hid hreaped).2.2 pid).mpr rfl
      have hsent := h.send .sigint hpid
      exact hsent.setKernel rfl ((hsent.stage k).call hid hreaped fun _ => nofun)

theorem Sound.kill (h : Sound w) : Sound (step w (.kill k)) := by
  cases hcall : (w.kernels k).call with
  | interrupting => simpa only [step, hcall] using h
  | starting pid => simpa only [step, hcall] using h
  | killing => simpa only [step, hcall] using h
  | none =>
    cases hid : (w.kernels k).processId with
    | none => simpa only [step, hcall, hid] using h
    | some pid =>
      cases hreaped : (w.kernels k).reaped with
      | true =>
        have hstep : step w (.kill k) = w.setKernel k { w.kernels k with processId := none, call := .none } := by
          simp only [step, hcall, hid, hreaped, if_true]
        rw [hstep]
        exact h.setKernel rfl ((h.stage k).forget hreaped)
      | false =>
        have hstep : step w (.kill k) =
            (w.send k pid .sigkill).setKernel k { w.kernels k with call := .killing } := by
          simp only [step, hcall, hid, hreaped, Bool.false_eq_true, if_false]
        rw [hstep]
        have hpid : w.owner pid = some k := (((h.stage k).there_of hid hreaped).2.2 pid).mpr rfl
        have hsent := h.send .sigkill hpid
        exact hsent.setKernel rfl ((hsent.stage k).call hid hreaped fun _ => nofun)

theorem Sound.killed (h : Sound w) : Sound (step w (.killed k)) := by
  cases hcall : (w.kernels k).call with
  | interrupting => simpa only [step, hcall] using h
  | starting pid => simpa only [step, hcall] using h
  | none => simpa only [step, hcall] using h
  | killing =>
    cases hid : (w.kernels k).processId with
    | none => simpa only [step, hcall, hid] using h
    | some pid =>
      rcases h.waitpidCached false hid (.inr hcall) with ⟨hzero, -, hw⟩ | ⟨status, hpid, hw, -, hk⟩
      · have heq : w.waitpidCached k pid false = (.zero, w) := Prod.ext hzero hw
        simpa only [step, hcall, hid, heq] using h
      · have heq : w.waitpidCached k pid false = (.pid status, (w.waitpidCached k pid false).2) :=
          Prod.ext hpid rfl
        have hreaped : ((w.waitpidCached k pid false).2.kernels k).reaped = true := by rw [hk]
        simp only [step, hcall, hid]
        rw [heq]
        exact hw.setKernel rfl ((hw.stage k).forget hreaped)

theorem Sound.step (h : Sound w) (e : Event) : Sound (step w e) := by
  cases e with
  | ends pid e => exact (h.system_step pid e 0).1
  | stops pid sig => exact (h.system_step pid (.exited 0) sig).2.1
  | continues pid => exact (h.system_step pid (.exited 0) 0).2.2.1
  | foreignForks pid => exact (h.system_step pid (.exited 0) 0).2.2.2.1
  | foreignGone pid => exact (h.system_step pid (.exited 0) 0).2.2.2.2
  | fork k pid =>
    by_cases hfork : (w.kernels k).launched = false ∧ w.procs pid = none
    · simp only [KernelProcess.step, if_pos hfork]
      exact h.fork hfork.1 hfork.2
    · simpa only [KernelProcess.step, if_neg hfork] using h
  | execRead k failed => exact h.execRead failed
  | isAlive k =>
    by_cases hcall : (w.kernels k).call = .none
    · simp only [KernelProcess.step, if_pos hcall]
      exact (h.isAlive hcall).1
    · simpa only [KernelProcess.step, if_neg hcall] using h
  | interrupt k => exact h.interrupt
  | sigint k => exact h.sigint
  | kill k => exact h.kill
  | killed k => exact h.killed
  | describeStatus k =>
    by_cases hcall : (w.kernels k).call = .none
    · simp only [KernelProcess.step, if_pos hcall]
      exact h.describeStatus hcall
    · simpa only [KernelProcess.step, if_neg hcall] using h

theorem sound_initial (interruptBySignal : Nat → Bool) : Sound (initial interruptBySignal) where
  stage _ := .idle rfl rfl rfl fun _ => nofun
  fresh _ _ := rfl
  phases _ _ _ h := absurd h nofun
  signals _ h := absurd h List.not_mem_nil
  described _ h := absurd h List.not_mem_nil
  failures := rfl

theorem sound_run (interruptBySignal : Nat → Bool) (es : List Event) : Sound (run interruptBySignal es) := by
  have hreach := Transition.System.reachable_foldl (initial interruptBySignal) step es
  refine Transition.System.invariant ?_ ?_ _ hreach
  · rintro _ rfl
    exact sound_initial interruptBySignal
  · rintro w e _ - hw rfl
    exact hw.step e

/-! ## What the calls are for -/

/-- **What `kill` leaves**: once no call is under way and the object has no id, its process is still
in the table exactly when the last status it was given is a stop. -/
theorem killed_iff (interruptBySignal : Nat → Bool) (es : List Event) (k : Nat)
    (hcall : ((run interruptBySignal es).kernels k).call = .none)
    (hid : ((run interruptBySignal es).kernels k).processId = none) :
    (∃ pid, (run interruptBySignal es).owner pid = some k) ↔
      ((run interruptBySignal es).kernels k).reaped = true ∧
        ∃ sig, ((run interruptBySignal es).kernels k).exitStatus = .stopped sig := by
  cases (sound_run interruptBySignal es).stage k with
  | idle _ hreaped _ hnone =>
    refine iff_of_false (fun ⟨pid, hpid⟩ => hnone pid hpid) fun ⟨hreaped', _⟩ => ?_
    exact absurd (hreaped'.symm.trans hreaped) nofun
  | starting _ _ _ _ hcall' => exact absurd (hcall'.symm.trans hcall) nofun
  | there _ _ hid' => exact absurd (hid'.symm.trans hid) nofun
  | gone e _ _ _ hstatus _ hnone =>
    refine iff_of_false (fun ⟨pid, hpid⟩ => hnone pid hpid) fun ⟨_, sig, hsig⟩ => ?_
    exact absurd (hstatus.symm.trans hsig) nofun
  | left sig pid _ hreaped _ hstatus hheld =>
    exact iff_of_true ⟨pid, (hheld pid).mpr rfl⟩ ⟨hreaped, sig, hstatus⟩

/-- A kernel that is stopped when its status is asked for is not killed. -/
theorem killed_iff_stopped :
    ∃ pid, (run (fun _ => false) [.fork 0 7, .execRead 0 false, .stops 7 19, .describeStatus 0,
      .kill 0]).owner pid = some 0 :=
  (killed_iff (fun _ => false) [.fork 0 7, .execRead 0 false, .stops 7 19, .describeStatus 0, .kill 0] 0
    (by decide) (by decide)).mpr ⟨by decide, 19, by decide⟩

end Jovian.KernelProcess
