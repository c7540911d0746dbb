import Jovian.Lib.Log
import Jovian.Session.InstallHolds

/-!
# Jovian — making a virtual environment (`ensurePythonEnvironmentIn`)

A call looks at the environment once. Where it is missing it is made; where it was made from another
Python it is emptied and made again, once no session uses it. Both are done under a hold, that keeps
new sessions waiting. Installs of packages hold the environment too, and lock it against one another;
the making takes no lock, so that calls hold the environment at the same time, and the later hold is
in the slot.

One environment, and the Pythons it may be made from: these are told apart by the folder they are
in, as `pyvenv.cfg` has it.

* **`live_is_kept`** — in every run in which no call gets past its look at who uses the environment
  while another one is past it, where one of the two is to empty it (`careful`), no environment is
  emptied that is in use, being made or installed into, or ready for the call's Python (`Kept`).
-/

namespace Jovian.EnvironmentMaking

open Transition (System)
open InstallHolds (WhenInUse)

/-! ## The environment, its sessions and its calls -/

/-- What `environmentState` reads; `P` is the type of the Pythons' folders. -/
structure Environment (P : Type) where
  /-- The `home` of its `pyvenv.cfg`. -/
  home : Option P := none
  /-- There is a python in it. -/
  python : Bool := false
deriving DecidableEq

inductive EnvironmentState where
  | ready
  | missing
  | other
deriving DecidableEq

/-- Where a session on the environment is. -/
inductive Phase where
  /-- `createSession` has been called, and looks at the hold. -/
  | asked
  | waiting (hold : Nat)
  /-- In `starting`. -/
  | starting
  /-- In `sessions`. -/
  | created
  /-- `createSession` has failed. -/
  | failed
deriving DecidableEq

structure Session where
  phase : Phase := .asked
  stopped : Bool := false
  /-- Its kernel exited, or the connection was lost. -/
  dead : Bool := false
  /-- Its kernel process runs. -/
  running : Bool := false
deriving DecidableEq

inductive Task (P : Type) where
  /-- `ensurePythonEnvironmentIn` -/
  | environment (python : P)
  /-- `ensurePythonPackagesIn` -/
  | packages (whenInUse : WhenInUse)
deriving DecidableEq

/-- Where a call is. -/
inductive At where
  | called
  /-- An install of packages has the lock. -/
  | locked
  /-- pip is asked what would be replaced. -/
  | planning
  /-- Under a hold; `sessionsUsing` has been asked, and has or has not found any. -/
  | asked (hold : Nat) (inUse planned : Bool)
  | sleeping
  /-- Makes the folder the environment is in. -/
  | entering (hold : Nat) (clear : Bool)
  /-- `python -m venv` runs; whether the environment was ready for that Python when it began. -/
  | making (hold : Nat) (clear wasReady : Bool)
  /-- pip runs. -/
  | installing (hold : Option Nat)
  | done
deriving DecidableEq

/-- What a call is told where it is. -/
inductive Reply where
  | resolved
  | rejected
  /-- Nothing to install, or why it can't be; else whether packages would be replaced. -/
  | plan (replaces : Option Bool)
deriving DecidableEq

structure Job (P : Type) where
  task : Task P
  state : At
deriving DecidableEq

structure State (P : Type) where
  environment : Environment P := {}
  /-- The environment's slot in `installHolds`. -/
  slot : Option Nat := none
  /-- Which of the holds are released. -/
  holds : List Bool := []
  /-- Which install has the lock. -/
  lock : Option Nat := none
  jobs : List (Job P) := []
  sessions : List Session := []
deriving DecidableEq

inductive Event (P : Type) where
  | call (task : Task P)
  /-- A call goes on. -/
  | go (job : Nat) (reply : Reply)
  /-- The `python -m venv` of a call writes `pyvenv.cfg`, or has put a python there. -/
  | writes (job : Nat)
  | fills (job : Nat)
  | createSession
  | look (session : Nat)
  /-- The supervisor starts the kernel. -/
  | spawn (session : Nat)
  /-- The supervisor has created the session. -/
  | created (session : Nat)
  | fails (session : Nat)
  /-- `stop`, `kill` or `disconnect`. -/
  | stop (session : Nat)
  | lost (session : Nat)
  /-- The kernel process ends. -/
  | ends (session : Nat)
deriving DecidableEq

namespace Session

/-- In `sessions`, and not `isStopped`. -/
def listed (x : Session) : Bool := decide (x.phase = .created) && !(x.stopped || x.dead)

/-- What `sessionsUsing` counts. -/
def counts (x : Session) : Bool := decide (x.phase = .starting) || x.listed

/-- It uses the environment, whether or not it is counted. -/
def uses (x : Session) : Bool := x.counts || x.running

/-- One turn of the wait. -/
def looks (slot : Option Nat) (x : Session) : Session :=
  match slot with
  | none => { x with phase := .starting }
  | some hold => { x with phase := .waiting hold }

def look (slot : Option Nat) (holds : List Bool) (x : Session) : Session :=
  match x.phase with
  | .asked => x.looks slot
  -- the promise is resolved once the hold is released
  | .waiting hold => if holds[hold]? = some true then x.looks slot else x
  | _ => x

def move (source target : Phase) (x : Session) : Session :=
  if x.phase = source then { x with phase := target } else x

end Session

section

variable {P : Type} [DecidableEq P]

def environmentState (python : P) (e : Environment P) : EnvironmentState :=
  match e.home with
  | none => .missing
  | some home => if e.python && decide (home = python) then .ready else .other

namespace State

def holdInstall (s : State P) : State P :=
  { s with holds := s.holds ++ [false], slot := some s.holds.length }

/-- The function that `holdInstall` returned is called. -/
def release (hold : Nat) (s : State P) : State P :=
  { s with
    holds := s.holds.set hold true
    -- a later hold may be in the slot
    slot := if s.slot = some hold then none else s.slot }

def setJob (job : Nat) (j : Job P) (s : State P) : State P := { s with jobs := s.jobs.set job j }

def modify (session : Nat) (f : Session → Session) (s : State P) : State P :=
  { s with sessions := s.sessions.modify session f }

/-- `sessionsUsing` finds one. -/
def inUse (s : State P) : Bool := s.sessions.any Session.counts

end State

def At.hold? : At → Option Nat
  | asked hold _ _ | entering hold _ | making hold _ _ => some hold
  | installing hold => hold
  | _ => none

/-! ## A call -/

/-- Held, then `sessionsUsing`, which goes through the sessions at once. -/
def ask (job : Nat) (task : Task P) (planned : Bool) (s : State P) : State P :=
  s.holdInstall.setJob job ⟨task, .asked s.holds.length s.inUse planned⟩

def State.releaseAll (hold : Option Nat) (s : State P) : State P :=
  match hold with
  | none => s
  | some hold => s.release hold

/-- `finally` -/
def finish (job : Nat) (j : Job P) (s : State P) : State P :=
  let s := s.releaseAll j.state.hold?
  { s.setJob job ⟨j.task, .done⟩ with lock := if s.lock = some job then none else s.lock }

/-- Sessions use the environment: the hold is released, and looked for again later. -/
def inUse (job : Nat) (task : Task P) (hold : Nat) (planned : Bool) (s : State P) : State P :=
  match task, planned with
  -- while sessions use the environment, pip is asked what would be replaced
  | .packages _, false => (s.release hold).setJob job ⟨task, .planning⟩
  | .packages .defer, true => finish job ⟨task, .asked hold true planned⟩ s
  | _, _ => (s.release hold).setJob job ⟨task, .sleeping⟩

/-- `environmentState`, and what is done about it at once. -/
def lookAtEnvironment (job : Nat) (python : P) (s : State P) : State P :=
  match environmentState python s.environment with
  | .ready => s.setJob job ⟨.environment python, .done⟩
  | .missing => s.holdInstall.setJob job ⟨.environment python, .entering s.holds.length false⟩
  | .other => ask job (.environment python) true s

/-- `python -m venv`; `--clear` empties the environment first. -/
def make (job : Nat) (python : P) (hold : Nat) (clear : Bool) (s : State P) : State P :=
  let wasReady := decide (environmentState python s.environment = .ready)
  { s.setJob job ⟨.environment python, .making hold clear wasReady⟩ with
    environment := if clear then {} else s.environment }

def go (job : Nat) (reply : Reply) (s : State P) : State P :=
  match s.jobs[job]? with
  | none => s
  | some j =>
    match j.state, reply, j.task with
    | .done, _, _ => s
    | _, .rejected, _ => finish job j s
    | .called, .resolved, .environment python => lookAtEnvironment job python s
    | .called, .resolved, .packages _ =>
      if s.lock = none then { s.setJob job ⟨j.task, .locked⟩ with lock := some job } else s
    | .locked, .resolved, .packages whenInUse =>
      if whenInUse = .proceed then s.setJob job ⟨j.task, .installing none⟩ else ask job j.task false s
    | .asked hold true planned, .resolved, task => inUse job task hold planned s
    | .asked hold false _, .resolved, .environment _ => s.setJob job ⟨j.task, .entering hold true⟩
    | .asked hold false _, .resolved, .packages _ => s.setJob job ⟨j.task, .installing (some hold)⟩
    | .planning, .plan none, _ => finish job j s
    | .planning, .plan (some false), _ => s.setJob job ⟨j.task, .installing none⟩
    | .planning, .plan (some true), .packages _ => ask job j.task true s
    | .sleeping, .resolved, task => ask job task true s
    | .entering hold clear, .resolved, .environment python => make job python hold clear s
    | .making _ _ _, .resolved, _ | .installing _, .resolved, _ => finish job j s
    | _, _, _ => s

/-- What the process a call runs does to the environment. -/
def process (job : Nat) (f : P → Environment P → Environment P) (s : State P) : State P :=
  match s.jobs[job]? with
  | some ⟨.environment python, .making _ _ _⟩ => { s with environment := f python s.environment }
  | _ => s

def step (s : State P) : Event P → State P
  | .call task => { s with jobs := s.jobs ++ [⟨task, .called⟩] }
  | .go job reply => go job reply s
  | .writes job => process job (fun python e => { e with home := some python }) s
  | .fills job => process job (fun _ e => { e with python := true }) s
  | .createSession => { s with sessions := s.sessions ++ [{}] }
  | .look i => s.modify i (Session.look s.slot s.holds)
  | .spawn i => s.modify i fun x => if x.phase = .starting then { x with running := true } else x
  | .created i => s.modify i (Session.move .starting .created)
  | .fails i => s.modify i fun x => (x.move .starting .failed).move .created .failed
  | .stop i => s.modify i fun x => { x with stopped := true }
  | .lost i => s.modify i fun x => { x with dead := true }
  | .ends i => s.modify i fun x => { x with running := false }

/-- From any state of the environment, with nothing under way. -/
def system (environment : Environment P) : System (State P) (Event P) :=
  System.ofFn { environment } step

/-! ## The property -/

/-- It makes the environment, or installs into it. -/
def At.works : At → Bool
  | making _ _ _ | installing _ => true
  | _ => false

/-- **A live environment is kept**: while one is emptied and made again no session uses it and no
other call makes it or installs into it, and it was not ready. -/
def Kept (s : State P) : Prop :=
  ∀ (i : Nat) task hold wasReady, s.jobs[i]? = some ⟨task, .making hold true wasReady⟩ →
    wasReady = false ∧ (∀ x ∈ s.sessions, x.uses = false) ∧
    ∀ (k : Nat) j, s.jobs[k]? = some j → k ≠ i → j.state.works = false

/-- Past its look: nothing makes it wait any more. -/
def At.past : At → Bool
  | asked _ inUse _ => !inUse
  | entering _ _ | making _ _ _ | installing _ => true
  | _ => false

/-- Past its look, and to empty the environment, or emptying it. -/
def Job.clears (j : Job P) : Bool :=
  match j.state, j.task with
  | .asked _ inUse _, .environment _ => !inUse
  | .entering _ clear, _ | .making _ clear _, _ => clear
  | _, _ => false

/-- Whether a step gets its call past its look, and then whether it is to empty the environment, for
which Python. -/
def passes (s : State P) (j : Job P) (reply : Reply) : Option (Option P) :=
  match j.state, reply, j.task with
  | .called, .resolved, .environment python =>
    match environmentState python s.environment with
    | .ready => none
    | .missing => some none
    | .other => if s.inUse then none else some (some python)
  | .sleeping, .resolved, .environment python => if s.inUse then none else some (some python)
  | .locked, .resolved, .packages whenInUse =>
    if whenInUse = .proceed || !s.inUse then some none else none
  | .planning, .plan (some false), _ => some none
  | .planning, .plan (some true), .packages _ | .sleeping, .resolved, .packages _ =>
    if s.inUse then none else some none
  | _, _, _ => none

/-- No call gets past its look while another is past its own, where one of the two is to empty the
environment. One that is to empty it finds it not ready for its Python, also where it has waited, and
no kernel running of a session that is not counted. -/
def careful (s : State P) : Event P → Bool
  | .go job reply =>
    match s.jobs[job]? with
    | none => true
    | some j =>
      match passes s j reply with
      | none => true
      | some none => s.jobs.all fun j => !j.clears
      | some (some python) =>
        (s.jobs.all fun j => !j.state.past) &&
        decide (environmentState python s.environment ≠ .ready) &&
        s.sessions.all fun x => x.counts || !x.running
  | _ => true

end

/-! ## Whose hold is whose -/

section

variable {P : Type}

/-- Two calls have two holds, of those that were taken. -/
structure Held (jobs : List (Job P)) (taken : Nat) : Prop where
  own : ∀ (i k : Nat) j j' hold, jobs[i]? = some j → jobs[k]? = some j' →
    j.state.hold? = some hold → j'.state.hold? = some hold → i = k
  taken : ∀ (i : Nat) j hold, jobs[i]? = some j → j.state.hold? = some hold → hold < taken

variable {jobs : List (Job P)} {n n' job i : Nat} {j j₀ j₁ : Job P}

theorem getElem?_set_cases (h : (jobs.set job j₁)[i]? = some j) :
    i = job ∧ j = j₁ ∨ i ≠ job ∧ jobs[i]? = some j := by
  by_cases hi : i = job
  · subst hi
    have hlt : i < jobs.length := by
      have := (List.getElem?_eq_some_iff.mp h).1
      rwa [List.length_set] at this
    rw [List.getElem?_set_self hlt] at h
    exact .inl ⟨rfl, (Option.some.inj h).symm⟩
  · rw [List.getElem?_set_ne (Ne.symm hi)] at h
    exact .inr ⟨hi, h⟩

/-- A call goes on, with the hold it had, a new one, or none. -/
theorem Held.set (h : Held jobs n) (hjob : jobs[job]? = some j₀) (hn : n ≤ n')
    (hhold : ∀ hold, j₁.state.hold? = some hold →
      j₀.state.hold? = some hold ∨ n ≤ hold ∧ hold < n') : Held (jobs.set job j₁) n' where
  own i k j j' hold hi hk hold_i hold_k := by
    -- a hold of another call is not the one that is new
    have hother : ∀ (k : Nat) j', k ≠ job → jobs[k]? = some j' → j'.state.hold? = some hold →
        j₁.state.hold? = some hold → False := by
      intro k j' hne hk hold_k hnew
      rcases hhold hold hnew with hold₀ | ⟨hle, -⟩
      · exact hne (h.own k job j' j₀ hold hk hjob hold_k hold₀)
      · exact absurd (h.taken k j' hold hk hold_k) (Nat.not_lt.mpr hle)
    rcases getElem?_set_cases hi with ⟨rfl, rfl⟩ | ⟨hi_ne, hi⟩ <;>
      rcases getElem?_set_cases hk with ⟨rfl, rfl⟩ | ⟨hk_ne, hk⟩
    · rfl
    · exact (hother _ _ hk_ne hk hold_k hold_i).elim
    · exact (hother _ _ hi_ne ‹_› hold_i hold_k).elim
    · exact h.own i k j j' hold hi hk hold_i hold_k
  taken i j hold hi hold_i := by
    rcases getElem?_set_cases hi with ⟨rfl, rfl⟩ | ⟨-, hi⟩
    · rcases hhold hold hold_i with hold₀ | ⟨-, hlt⟩
      · exact Nat.lt_of_lt_of_le (h.taken i j₀ hold hjob hold₀) hn
      · exact hlt
    · exact Nat.lt_of_lt_of_le (h.taken i j hold hi hold_i) hn

theorem Held.call (h : Held jobs n) (hnone : j₁.state.hold? = none) : Held (jobs ++ [j₁]) n where
  own i k j j' hold hi hk hold_i hold_k := by
    rcases Log.getElem?_snoc.mp hi with hi | ⟨-, rfl⟩
    · rcases Log.getElem?_snoc.mp hk with hk | ⟨-, rfl⟩
      · exact h.own i k j j' hold hi hk hold_i hold_k
      · rw [hnone] at hold_k
        cases hold_k
    · rw [hnone] at hold_i
      cases hold_i
  taken i j hold hi hold_i := by
    rcases Log.getElem?_snoc.mp hi with hi | ⟨-, rfl⟩
    · exact h.taken i j hold hi hold_i
    · rw [hnone] at hold_i
      cases hold_i

theorem past_of_clears (h : j.clears = true) : j.state.past = true := by
  obtain ⟨task, state⟩ := j
  cases state with
  | asked hold inUse planned =>
    cases task with
    | environment python => exact h
    | packages whenInUse => cases h
  | entering | making => rfl
  | _ => cases h

theorem past_of_works {state : At} (h : state.works = true) : state.past = true := by
  cases state with
  | making | installing => rfl
  | _ => cases h

end

/-! ## A call that is to empty the environment -/

section

variable {P : Type} [DecidableEq P]

/-- The call `j` is past its look, and to empty the environment. -/
structure Clear (s : State P) (i : Nat) (j : Job P) : Prop where
  alone : ∀ (k : Nat) j', s.jobs[k]? = some j' → k ≠ i → j'.state.past = false
  unused : ∀ x ∈ s.sessions, x.uses = false
  held : ∃ hold, j.state.hold? = some hold ∧ s.slot = some hold
  fresh : ∀ python, j.task = .environment python → (∀ hold clear was, j.state ≠ .making hold clear was) →
    environmentState python s.environment ≠ .ready
  began : ∀ hold clear was, j.state = .making hold clear was → was = false

structure Inv (s : State P) : Prop where
  clear : ∀ (i : Nat) j, s.jobs[i]? = some j → j.clears = true → Clear s i j
  held : Held s.jobs s.holds.length

variable {s s' : State P} {job : Nat} {j₀ j₁ : Job P}

theorem Inv.kept (h : Inv s) : Kept s := by
  intro i task hold wasReady hi
  have hclear := h.clear i _ hi rfl
  refine ⟨hclear.began hold true wasReady rfl, hclear.unused, fun k j hk hne => ?_⟩
  by_contra hworks
  have hpast := past_of_works (eq_true_of_ne_false hworks)
  exact absurd ((hclear.alone k j hk hne).symm.trans hpast) Bool.false_ne_true

/-- No session is counted where none uses the environment. -/
theorem Clear.inUse {i : Nat} {j : Job P} (h : Clear s i j) : s.inUse = false := by
  refine List.any_eq_false.mpr fun x hx hcounts => ?_
  have huses : x.uses = true := by
    rw [Session.uses, hcounts]
    rfl
  exact absurd ((h.unused x hx).symm.trans huses) Bool.false_ne_true

/-! ## Sessions, and what `python -m venv` does -/

/-- Sessions do what they do. While the slot is taken, none starts to use the environment. -/
theorem Inv.with_sessions (h : Inv s) {sessions : List Session}
    (hunused : s.slot ≠ none → (∀ x ∈ s.sessions, x.uses = false) →
      ∀ x ∈ sessions, x.uses = false) : Inv { s with sessions } where
  clear i j hj hclears := by
    have hclear := h.clear i j hj hclears
    obtain ⟨hold, hhold, hslot⟩ := hclear.held
    refine ⟨hclear.alone, hunused ?_ hclear.unused, ⟨hold, hhold, hslot⟩, hclear.fresh, hclear.began⟩
    rw [hslot]
    exact Option.some_ne_none hold
  held := h.held

theorem Inv.modify (h : Inv s) (session : Nat) {f : Session → Session}
    (hf : ∀ x, s.slot ≠ none → x.uses = false → (f x).uses = false) :
    Inv (s.modify session f) := by
  refine h.with_sessions fun hslot hunused x hx => ?_
  obtain ⟨i, hi⟩ := List.mem_iff_getElem?.mp hx
  rw [List.getElem?_modify] at hi
  obtain ⟨y, hy, rfl⟩ := Option.map_eq_some_iff.mp hi
  have hy := hunused y (List.mem_of_getElem? hy)
  split
  · exact hf y hslot hy
  · exact hy

theorem uses_false {x : Session} (h : x.uses = false) :
    x.phase ≠ .starting ∧ x.listed = false ∧ x.running = false := by
  simpa [Session.uses, Session.counts, and_assoc] using h

theorem uses_look {x : Session} {slot : Option Nat} (holds : List Bool) (hslot : slot ≠ none)
    (hx : x.uses = false) : (x.look slot holds).uses = false := by
  obtain ⟨hold, rfl⟩ := Option.ne_none_iff_exists'.mp hslot
  obtain ⟨-, -, hrunning⟩ := uses_false hx
  have hlooks : (x.looks (some hold)).uses = false := by
    simp [Session.looks, Session.uses, Session.counts, Session.listed, hrunning]
  unfold Session.look
  split
  · exact hlooks
  · split
    · exact hlooks
    · exact hx
  · exact hx

/-- It is not starting, and gets nowhere it is counted. -/
theorem uses_move {x : Session} {source target : Phase} (hx : x.uses = false)
    (hmove : source = .starting ∨ target = .failed) : (x.move source target).uses = false := by
  obtain ⟨hstarting, hlisted, hrunning⟩ := uses_false hx
  unfold Session.move
  split
  · next hphase =>
    rcases hmove with rfl | rfl
    · exact absurd hphase hstarting
    · simp [Session.uses, Session.counts, Session.listed, hrunning]
  · exact hx

theorem Inv.process (h : Inv s) (job : Nat) (f : P → Environment P → Environment P) :
    Inv (process job f s) := by
  unfold EnvironmentMaking.process
  split
  · next python hold clear was hjob =>
    refine ⟨fun i j hj hclears => ?_, h.held⟩
    have hclear := h.clear i j hj hclears
    refine ⟨hclear.alone, hclear.unused, hclear.held, fun python' _ hmaking => ?_, hclear.began⟩
    -- the call whose process it is makes the environment: it is this one, or there are two
    by_cases hi : job = i
    · subst hi
      rw [Option.some.inj (hj.symm.trans hjob)] at hmaking
      exact absurd rfl (hmaking hold clear was)
    · exact absurd (hclear.alone job _ hjob hi) (by simp [At.past])
  · exact h

end

/-! ## Calls -/

section

variable {P : Type} [DecidableEq P] {s s' : State P} {job hold : Nat} {j₀ j₁ : Job P} {python : P}
  {task : Task P}

/-- A call gets to where it is not past a look, and gives back its hold. -/
theorem Inv.leave (h : Inv s) (hjob : s.jobs[job]? = some j₀) (hpast : j₁.state.past = false)
    (hnone : j₁.state.hold? = none) (hjobs : s'.jobs = s.jobs.set job j₁)
    (hsessions : s'.sessions = s.sessions) (henvironment : s'.environment = s.environment)
    (hholds : s'.holds.length = s.holds.length)
    (hslot : ∀ hold, j₀.state.hold? ≠ some hold → s.slot = some hold → s'.slot = some hold) :
    Inv s' where
  clear i j hj hclears := by
    rw [hjobs] at hj
    rcases getElem?_set_cases hj with ⟨rfl, rfl⟩ | ⟨hi, hj⟩
    · exact absurd ((past_of_clears hclears).symm.trans hpast) (by simp)
    · have hclear := h.clear i j hj hclears
      obtain ⟨hold, hhold, hold_slot⟩ := hclear.held
      refine ⟨fun k j' hk hne => ?_, ?_, ⟨hold, hhold, hslot hold (fun hsame => ?_) hold_slot⟩, ?_,
        hclear.began⟩
      · rw [hjobs] at hk
        rcases getElem?_set_cases hk with ⟨rfl, rfl⟩ | ⟨-, hk⟩
        · exact hpast
        · exact hclear.alone k j' hk hne
      · rw [hsessions]
        exact hclear.unused
      · exact hi (h.held.own i job j j₀ hold hj hjob hhold hsame)
      · rw [henvironment]
        exact hclear.fresh
  held := by
    rw [hjobs, hholds]
    refine h.held.set hjob (Nat.le_refl _) fun hold hhold => ?_
    rw [hnone] at hhold
    cases hhold

/-- A call goes on, none being to empty the environment: not this one, nor another. -/
theorem Inv.without_clear (h : Inv s) (hjob : s.jobs[job]? = some j₀) (hclears : j₁.clears = false)
    (hnone : ∀ (k : Nat) j, s.jobs[k]? = some j → k ≠ job → j.clears = false)
    (hjobs : s'.jobs = s.jobs.set job j₁) (hle : s.holds.length ≤ s'.holds.length)
    (hhold : ∀ hold, j₁.state.hold? = some hold →
      j₀.state.hold? = some hold ∨ s.holds.length ≤ hold ∧ hold < s'.holds.length) : Inv s' where
  clear i j hj hj_clears := by
    rw [hjobs] at hj
    rcases getElem?_set_cases hj with ⟨-, rfl⟩ | ⟨hi, hj⟩
    · exact absurd (hj_clears.symm.trans hclears) (by simp)
    · exact absurd (hj_clears.symm.trans (hnone i j hj hi)) (by simp)
  held := by
    rw [hjobs]
    exact h.held.set hjob hle hhold

/-- No other call is to empty the environment where this one is past its look. -/
theorem Inv.none_clears (h : Inv s) (hjob : s.jobs[job]? = some j₀) (hpast : j₀.state.past = true)
    (k : Nat) (j : Job P) (hk : s.jobs[k]? = some j) (hne : k ≠ job) : j.clears = false := by
  by_contra hclears
  have hclear := h.clear k j hk (eq_true_of_ne_false hclears)
  exact absurd ((hclear.alone job j₀ hjob hne.symm).symm.trans hpast) (by simp)

theorem Inv.releaseAll (h : Inv s) (hjob : s.jobs[job]? = some j₀) (hpast : j₁.state.past = false)
    (hnone : j₁.state.hold? = none) :
    Inv ((s.releaseAll j₀.state.hold?).setJob job j₁) := by
  unfold State.releaseAll
  split
  · exact h.leave hjob hpast hnone rfl rfl rfl rfl fun _ _ hslot => hslot
  · next hold hhold =>
    refine h.leave hjob hpast hnone rfl rfl rfl List.length_set fun hold' hne hslot => ?_
    have hother : s.slot ≠ some hold := by
      intro hsame
      rw [hhold] at hne
      exact hne (hsame.symm.trans hslot)
    show (if s.slot = some hold then none else s.slot) = some hold'
    rw [if_neg hother]
    exact hslot

theorem Inv.with_lock (h : Inv s) (lock : Option Nat) : Inv { s with lock } where
  clear i j hj hclears :=
    have hclear := h.clear i j hj hclears
    ⟨hclear.alone, hclear.unused, hclear.held, hclear.fresh, hclear.began⟩
  held := h.held

theorem Inv.finish (h : Inv s) (hjob : s.jobs[job]? = some j₀) : Inv (finish job j₀ s) := by
  have hdone : Inv ((s.releaseAll j₀.state.hold?).setJob job ⟨j₀.task, .done⟩) :=
    h.releaseAll hjob rfl rfl
  exact hdone.with_lock _

/-- A call that is to empty the environment gets past its look. -/
theorem Inv.clear_asks (h : Inv s) (hjob : s.jobs[job]? = some j₀)
    (hnone : ∀ j ∈ s.jobs, j.state.past = false) (hunused : ∀ x ∈ s.sessions, x.uses = false)
    (hfresh : environmentState python s.environment ≠ .ready) :
    Inv (s.holdInstall.setJob job ⟨.environment python, .asked s.holds.length false true⟩) where
  clear i j hj hclears := by
    rcases getElem?_set_cases hj with ⟨rfl, rfl⟩ | ⟨-, hj⟩
    · refine ⟨fun k j' hk hne => ?_, hunused, ⟨s.holds.length, rfl, rfl⟩, fun python' htask _ => ?_,
        fun _ _ _ heq => by cases heq⟩
      · rcases getElem?_set_cases hk with ⟨heq, -⟩ | ⟨-, hk⟩
        · exact absurd heq hne
        · exact hnone j' (List.mem_of_getElem? hk)
      · rw [← Task.environment.inj htask]
        exact hfresh
    · have hpast := hnone j (List.mem_of_getElem? hj)
      exact absurd ((past_of_clears hclears).symm.trans hpast) (by simp)
  held := by
    have hlength : s.holdInstall.holds.length = s.holds.length + 1 := List.length_append
    show Held (s.jobs.set job _) s.holdInstall.holds.length
    rw [hlength]
    refine h.held.set hjob (Nat.le_succ _) fun hold hhold => .inr ?_
    obtain rfl : s.holds.length = hold := Option.some.inj hhold
    exact ⟨Nat.le_refl _, Nat.lt_succ_self _⟩

/-- **A call asks who uses the environment**, under a hold. -/
theorem Inv.ask (h : Inv s) {planned : Bool} (hjob : s.jobs[job]? = some j₀)
    (hcareful : s.inUse = false → match task with
      | .environment python => (∀ j ∈ s.jobs, j.state.past = false) ∧
          environmentState python s.environment ≠ .ready ∧
          (∀ x ∈ s.sessions, x.counts = true ∨ x.running = false)
      | .packages _ => ∀ j ∈ s.jobs, j.clears = false)
    (hplanned : ∀ python, task = .environment python → planned = true) :
    Inv (ask job task planned s) := by
  unfold EnvironmentMaking.ask
  have hlength : s.holds.length < s.holdInstall.holds.length := by simp [State.holdInstall]
  have hnew : ∀ inUse hold, (⟨task, .asked s.holds.length inUse planned⟩ : Job P).state.hold? = some hold →
      j₀.state.hold? = some hold ∨ s.holds.length ≤ hold ∧ hold < s.holdInstall.holds.length := by
    intro inUse hold hhold
    obtain rfl : s.holds.length = hold := Option.some.inj hhold
    exact .inr ⟨Nat.le_refl _, hlength⟩
  cases huse : s.inUse with
  | true =>
    -- sessions are counted, so no call is to empty the environment
    have hnone : ∀ (k : Nat) j, s.jobs[k]? = some j → k ≠ job → j.clears = false := by
      intro k j hk _
      by_contra hclears
      have hfree := (h.clear k j hk (eq_true_of_ne_false hclears)).inUse
      exact absurd (hfree.symm.trans huse) Bool.false_ne_true
    refine h.without_clear hjob ?_ hnone rfl (Nat.le_of_lt hlength) (hnew true)
    unfold Job.clears
    cases task <;> rfl
  | false =>
    have hcareful := hcareful huse
    cases task with
    | packages whenInUse =>
      refine h.without_clear hjob rfl (fun k j hk _ => ?_) rfl (Nat.le_of_lt hlength) (hnew false)
      exact hcareful j (List.mem_of_getElem? hk)
    | environment python =>
      obtain ⟨hnone, hfresh, hcounted⟩ := hcareful
      rw [hplanned python rfl]
      refine h.clear_asks hjob hnone (fun x hx => ?_) hfresh
      have hcounts : x.counts = false := by
        have hall := List.any_eq_false.mp huse x hx
        exact eq_false_of_ne_true hall
      rcases hcounted x hx with hx | hx
      · exact absurd (hcounts.symm.trans hx) Bool.false_ne_true
      · rw [Session.uses, hcounts, hx]
        rfl

/-- It waits, or is given up. -/
theorem Inv.inUse (h : Inv s) {planned : Bool} (hjob : s.jobs[job]? = some j₀)
    (hhold : j₀.state.hold? = some hold) : Inv (inUse job task hold planned s) := by
  have hrelease : ∀ state : At, state.past = false → state.hold? = none →
      Inv ((s.release hold).setJob job ⟨task, state⟩) := by
    intro state hpast hnone
    have hleft : Inv ((s.releaseAll j₀.state.hold?).setJob job ⟨task, state⟩) :=
      h.releaseAll hjob hpast hnone
    rw [hhold] at hleft
    exact hleft
  unfold EnvironmentMaking.inUse
  split
  · exact hrelease .planning rfl rfl
  · have hdone := hrelease .done rfl rfl
    exact hdone.with_lock _
  · exact hrelease .sleeping rfl rfl

/-- The environment is made; it was not ready where it is emptied. -/
theorem Inv.make (h : Inv s) {clear : Bool}
    (hjob : s.jobs[job]? = some ⟨.environment python, .entering hold clear⟩) :
    Inv (make job python hold clear s) := by
  cases clear with
  | false =>
    refine h.without_clear hjob ?_ (h.none_clears hjob rfl) rfl (Nat.le_refl _) fun _ h => .inl h
    rfl
  | true =>
    have hclear := h.clear job _ hjob rfl
    have hfresh : environmentState python s.environment ≠ .ready :=
      hclear.fresh python rfl fun _ _ _ heq => by cases heq
    refine ⟨fun i j hj hclears => ?_, h.held.set hjob (Nat.le_refl _) fun _ h => .inl h⟩
    rcases getElem?_set_cases hj with ⟨rfl, rfl⟩ | ⟨hi, hj⟩
    · refine ⟨fun k j' hk hne => ?_, hclear.unused, hclear.held, fun _ _ hnot => ?_, fun _ _ was heq => ?_⟩
      · rcases getElem?_set_cases hk with ⟨heq, -⟩ | ⟨-, hk⟩
        · exact absurd heq hne
        · exact hclear.alone k j' hk hne
      · exact absurd rfl (hnot _ _ _)
      · rw [← (At.making.inj heq).2.2]
        exact decide_eq_false hfresh
    · exact absurd (hclears.symm.trans (h.none_clears hjob rfl i j hj hi)) (by simp)

/-- It has found no session, and goes on to empty the environment. -/
theorem Inv.enter (h : Inv s) {planned : Bool}
    (hjob : s.jobs[job]? = some ⟨.environment python, .asked hold false planned⟩) :
    Inv (s.setJob job ⟨.environment python, .entering hold true⟩) := by
  have hclear := h.clear job _ hjob rfl
  refine ⟨fun i j hj hclears => ?_, h.held.set hjob (Nat.le_refl _) fun _ h => .inl h⟩
  rcases getElem?_set_cases hj with ⟨rfl, rfl⟩ | ⟨hi, hj⟩
  · refine ⟨fun k j' hk hne => ?_, hclear.unused, hclear.held, fun python' htask _ => ?_,
      fun _ _ _ heq => by cases heq⟩
    · rcases getElem?_set_cases hk with ⟨heq, -⟩ | ⟨-, hk⟩
      · exact absurd heq hne
      · exact hclear.alone k j' hk hne
    · exact hclear.fresh python' htask fun _ _ _ heq => by cases heq
  · exact absurd (hclears.symm.trans (h.none_clears hjob rfl i j hj hi)) (by simp)

end

/-! ## Steps -/

section

variable {P : Type} [DecidableEq P] {s : State P} {job : Nat} {j : Job P} {reply : Reply}

/-- What `careful` says of a step that gets its call past its look. -/
theorem careful_install (hjob : s.jobs[job]? = some j)
    (hcareful : careful s (.go job reply) = true) (hpasses : passes s j reply = some none) :
    ∀ j ∈ s.jobs, j.clears = false := by
  unfold careful at hcareful
  dsimp only at hcareful
  rw [hjob] at hcareful
  dsimp only at hcareful
  rw [hpasses] at hcareful
  intro j hj
  simpa using List.all_eq_true.mp hcareful j hj

theorem careful_clear {python : P} (hjob : s.jobs[job]? = some j)
    (hcareful : careful s (.go job reply) = true) (hpasses : passes s j reply = some (some python)) :
    (∀ j ∈ s.jobs, j.state.past = false) ∧ environmentState python s.environment ≠ .ready ∧
      ∀ x ∈ s.sessions, x.counts = true ∨ x.running = false := by
  unfold careful at hcareful
  dsimp only at hcareful
  rw [hjob] at hcareful
  dsimp only at hcareful
  rw [hpasses] at hcareful
  obtain ⟨hcareful, hcounted⟩ := Bool.and_eq_true_iff.mp hcareful
  obtain ⟨hnone, hfresh⟩ := Bool.and_eq_true_iff.mp hcareful
  refine ⟨fun j hj => ?_, of_decide_eq_true hfresh, fun x hx => ?_⟩
  · simpa using List.all_eq_true.mp hnone j hj
  · simpa using List.all_eq_true.mp hcounted x hx

namespace Inv

theorem lookAtEnvironment (h : Inv s) {python : P}
    (hjob : s.jobs[job]? = some ⟨.environment python, .called⟩)
    (hcareful : careful s (.go job .resolved) = true) : Inv (lookAtEnvironment job python s) := by
  unfold EnvironmentMaking.lookAtEnvironment
  cases hstate : environmentState python s.environment with
  | ready => exact h.leave hjob rfl rfl rfl rfl rfl rfl fun _ _ hslot => hslot
  | missing =>
    have hnone := careful_install hjob hcareful (by simp [passes, hstate])
    have hlength : s.holdInstall.holds.length = s.holds.length + 1 := List.length_append
    refine h.without_clear hjob rfl (fun k j hk _ => hnone j (List.mem_of_getElem? hk)) rfl ?_
      fun hold hhold => .inr ?_
    · exact Nat.le_of_lt (Nat.lt_of_lt_of_eq (Nat.lt_succ_self _) hlength.symm)
    · obtain rfl : s.holds.length = hold := Option.some.inj hhold
      exact ⟨Nat.le_refl _, Nat.lt_of_lt_of_eq (Nat.lt_succ_self _) hlength.symm⟩
  | other =>
    refine h.ask hjob (fun huse => ?_) fun _ _ => rfl
    exact careful_clear hjob hcareful (by simp [passes, hstate, huse])

theorem go (h : Inv s) (hcareful : careful s (.go job reply) = true) : Inv (go job reply s) := by
  unfold EnvironmentMaking.go
  cases hjob : s.jobs[job]? with
  | none => exact h
  | some j =>
    obtain ⟨task, state⟩ := j
    have hstay : ∀ {state' : At}, state'.past = false → state'.hold? = none →
        state.hold? = none → Inv (s.setJob job ⟨task, state'⟩) := by
      intro state' hpast hnone _
      exact h.leave hjob hpast hnone rfl rfl rfl rfl fun _ _ hslot => hslot
    have hinstall : passes s ⟨task, state⟩ reply = some none → ∀ {hold : Option Nat},
        (∀ n, hold = some n → state.hold? = some n) →
        Inv (s.setJob job ⟨task, .installing hold⟩) := by
      intro hpasses hold hhold
      have hnone := careful_install hjob hcareful hpasses
      refine h.without_clear hjob ?_ (fun k j hk _ => hnone j (List.mem_of_getElem? hk)) rfl
        (Nat.le_refl _) fun n hn => .inl (hhold n hn)
      cases task <;> rfl
    cases state with
    | done => exact h
    | called =>
      cases reply with
      | rejected => exact h.finish hjob
      | resolved =>
        cases task with
        | environment python => exact h.lookAtEnvironment hjob hcareful
        | packages whenInUse =>
          dsimp only
          split
          · have hlocked := @hstay .locked rfl rfl rfl
            exact hlocked.with_lock _
          · exact h
      | plan replaces => exact h
    | locked =>
      cases reply with
      | rejected => exact h.finish hjob
      | resolved =>
        cases task with
        | environment python => exact h
        | packages whenInUse =>
          dsimp only
          split
          · next hproceed =>
            refine hinstall ?_ fun n hn => by cases hn
            simp [passes, hproceed]
          · refine h.ask hjob (fun huse => ?_) fun _ heq => by cases heq
            exact careful_install hjob hcareful (by simp [passes, huse])
      | plan replaces => exact h
    | planning =>
      cases reply with
      | rejected => exact h.finish hjob
      | resolved => exact h
      | plan replaces =>
        rcases replaces with _ | _ | _
        · exact h.finish hjob
        · exact hinstall rfl fun n hn => by cases hn
        · cases task with
          | environment python => exact h
          | packages whenInUse =>
            refine h.ask hjob (fun huse => ?_) fun _ heq => by cases heq
            exact careful_install hjob hcareful (by simp [passes, huse])
    | asked hold inUse planned =>
      cases reply with
      | rejected => exact h.finish hjob
      | resolved =>
        cases inUse with
        | true => exact h.inUse hjob rfl
        | false =>
          cases task with
          | environment python => exact h.enter hjob
          | packages whenInUse =>
            refine h.without_clear hjob rfl (h.none_clears hjob rfl) rfl (Nat.le_refl _)
              fun n hn => .inl hn
      | plan replaces => cases inUse <;> exact h
    | sleeping =>
      cases reply with
      | rejected => exact h.finish hjob
      | resolved =>
        refine h.ask hjob (fun huse => ?_) fun _ _ => rfl
        cases task with
        | environment python => exact careful_clear hjob hcareful (by simp [passes, huse])
        | packages whenInUse => exact careful_install hjob hcareful (by simp [passes, huse])
      | plan replaces => exact h
    | entering hold clear =>
      cases reply with
      | rejected => exact h.finish hjob
      | resolved =>
        cases task with
        | environment python => exact h.make hjob
        | packages whenInUse => exact h
      | plan replaces => exact h
    | making hold clear wasReady =>
      cases reply with
      | rejected => exact h.finish hjob
      | resolved => exact h.finish hjob
      | plan replaces => exact h
    | installing hold =>
      cases reply with
      | rejected => exact h.finish hjob
      | resolved => exact h.finish hjob
      | plan replaces => exact h

theorem step (h : Inv s) {e : Event P} (hcareful : careful s e = true) : Inv (step s e) := by
  cases e with
  | call task =>
    refine ⟨fun i j hj hclears => ?_, h.held.call rfl⟩
    rcases Log.getElem?_snoc.mp hj with hj | ⟨-, rfl⟩
    · have hclear := h.clear i j hj hclears
      refine ⟨fun k j' hk hne => ?_, hclear.unused, hclear.held, hclear.fresh, hclear.began⟩
      rcases Log.getElem?_snoc.mp hk with hk | ⟨-, rfl⟩
      · exact hclear.alone k j' hk hne
      · rfl
    · cases hclears
  | go job reply => exact h.go hcareful
  | writes job => exact h.process job fun python e => { e with home := some python }
  | fills job => exact h.process job fun _ e => { e with python := true }
  | createSession =>
    refine h.with_sessions fun _ hunused x hx => ?_
    rcases List.mem_append.mp hx with hx | hx
    · exact hunused x hx
    · rw [List.mem_singleton.mp hx]
      rfl
  | look i => exact h.modify i fun x hslot hx => uses_look s.holds hslot hx
  | spawn i =>
    refine h.modify i fun x _ hx => ?_
    split
    · next hphase => exact absurd hphase (uses_false hx).1
    · exact hx
  | created i => exact h.modify i fun x _ hx => uses_move hx (.inl rfl)
  | fails i => exact h.modify i fun x _ hx => uses_move (uses_move hx (.inl rfl)) (.inr rfl)
  | stop i =>
    refine h.modify i fun x _ hx => ?_
    obtain ⟨hphase, -, hrunning⟩ := uses_false hx
    simp [Session.uses, Session.counts, Session.listed, hphase, hrunning]
  | lost i =>
    refine h.modify i fun x _ hx => ?_
    obtain ⟨hphase, -, hrunning⟩ := uses_false hx
    simp [Session.uses, Session.counts, Session.listed, hphase, hrunning]
  | ends i =>
    refine h.modify i fun x _ hx => ?_
    obtain ⟨hphase, hlisted, -⟩ := uses_false hx
    simp [Session.uses, Session.counts, Session.listed, hphase]
    simpa [Session.listed] using hlisted

end Inv

theorem inv_init (environment : Environment P) : Inv { environment } where
  clear i j h := by cases h
  held := by
    constructor
    · intro i k j j' hold h
      cases h
    · intro i j hold h
      cases h

/-! ## The headline -/

/-- **A live environment is kept**, in every run in which no call gets past its look while another is
past its own, where one of the two is to empty the environment. -/
theorem live_is_kept (environment : Environment P) :
    ∀ s, ((system environment).when fun s e => careful s e = true).Reachable s → Kept s := by
  intro s hs
  have hinv : Inv s := System.invariant_ofFn (inv_init environment) (fun _ _ h hc => h.step hc) hs
  exact hinv.kept

end

/-- A session uses an environment of Python 0; Python 1 asks for it, and makes it once the session
has ended. -/
def waited : List (Event Nat) :=
  [.createSession, .look 0, .spawn 0, .created 0, .call (.environment 1), .go 0 .resolved,
    .go 0 .resolved, .stop 0, .ends 0, .go 0 .resolved, .go 0 .resolved, .createSession, .look 1,
    .go 0 .resolved]

theorem live_is_kept_waited : Kept (waited.foldl step { environment := ⟨some 0, true⟩ }) ∧
    (waited.foldl step { environment := ⟨some 0, true⟩ }).jobs =
      [⟨.environment 1, .making 1 true false⟩] := by
  have hall : System.allSteps step careful { environment := ⟨some 0, true⟩ } waited = true := by decide
  exact ⟨live_is_kept _ _ (System.reachable_of_allSteps hall), by decide⟩

/-- Two calls for Python 1 find an environment of Python 0 that nobody uses. The second one makes it,
and a session starts on it, before the first one gets to `python -m venv`. -/
def twoMakers : List (Event Nat) :=
  [.call (.environment 1), .call (.environment 1), .go 0 .resolved, .go 1 .resolved,
    .go 0 .resolved, .go 1 .resolved, .go 1 .resolved, .writes 1, .fills 1, .go 1 .resolved,
    .createSession, .look 0, .spawn 0, .created 0, .go 0 .resolved]

/-- **A live environment is emptied**: ready for the Python it was made for, and in use. -/
theorem live_is_emptied :
    (twoMakers.foldl step { environment := ⟨some 0, true⟩ }).jobs =
      [⟨.environment 1, .making 0 true true⟩, ⟨.environment 1, .done⟩] ∧
    (twoMakers.foldl step { environment := ⟨some 0, true⟩ }).sessions =
      [⟨.created, false, false, true⟩] ∧
    ¬ Kept (twoMakers.foldl step { environment := ⟨some 0, true⟩ }) := by
  have hjobs : (twoMakers.foldl step { environment := ⟨some 0, true⟩ }).jobs =
      [⟨.environment 1, .making 0 true true⟩, ⟨.environment 1, .done⟩] := by decide
  refine ⟨hjobs, by decide, fun h => ?_⟩
  have hkept := h 0 (.environment 1) 0 true (by rw [hjobs]; rfl)
  exact absurd hkept.1 (by decide)

end Jovian.EnvironmentMaking
