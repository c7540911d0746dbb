import Jovian.Lib.Log
import Jovian.Lib.Transition
import Mathlib.Logic.Function.Basic

/-!
# Jovian — kernels wait for installs (`SessionManager.holdInstall`)

An install that replaces packages holds new kernels off its library or environment. The holds are
promises in a map, one slot for each path. A session that is created, and a busy helper, wait on the
promise in the slot and look again; a restart does not look.

R installs and Python installs lock their library; the making of an environment does not, so that
two holds can be taken of one path. Then the second is in the slot, and the first keeps nobody off
once the second is released.

* **`holds_keep_out`** — in every run in which the hold in the slot is not released while another
  one of its path is not, and no kernel is restarted on a path that is held (`orderly`), no kernel
  passes a hold (`KeptOut`).
-/

namespace Jovian.InstallHolds

open Transition (System)

/-! ## Installs and kernels -/

inductive WhenInUse where
  | wait
  | defer
  | proceed
deriving DecidableEq

/-- What is installed into or made; `K` is the type of `libraryKey`'s values. -/
inductive Task (K : Type) where
  /-- `ensureRPackageIn` -/
  | r (library : K) (whenInUse : WhenInUse)
  /-- `ensurePythonPackagesIn` -/
  | python (venv : K) (whenInUse : WhenInUse)
  /-- `ensurePythonEnvironmentIn`, of an environment that is missing or another Python's. -/
  | environment (venv : K) (other : Bool)
deriving DecidableEq

/-- Where an install is. -/
inductive At where
  | called
  | locked
  /-- R or pip is asked what would be replaced. -/
  | planning
  /-- `sessionsUsing` is asked, under a hold; before the plan or after. -/
  | asking (hold : Nat) (planned : Bool)
  | sleeping
  | working (hold : Option Nat)
  | done
deriving DecidableEq

/-- What an install is told where it is. -/
inductive Reply where
  | resolved
  | rejected
  /-- Nothing to install, or why it can't be; else whether packages would be replaced. -/
  | plan (replaces : Option Bool)
  | inUse (sessions : Bool)
deriving DecidableEq

structure Job (K : Type) where
  task : Task K
  state : At
deriving DecidableEq

inductive Kind where
  | createSession
  | helper
  | restart
deriving DecidableEq

/-- Where a kernel is that is to be started. -/
inductive Phase where
  /-- Before its first look at the holds. -/
  | asked
  | waiting (hold : Nat)
  /-- Started; whether a hold of its path was not released then. -/
  | started (held : Bool)
deriving DecidableEq

structure Kernel (K : Type) where
  kind : Kind
  path : Option K
  phase : Phase
deriving DecidableEq

structure Hold (K : Type) where
  path : K
  released : Bool
deriving DecidableEq

structure State (K : Type) where
  /-- A path's slot: a hold's promise. -/
  installHolds : K → Option Nat := fun _ => none
  holds : List (Hold K) := []
  /-- Which install has a library's lock. -/
  locks : K → Option Nat := fun _ => none
  jobs : List (Job K) := []
  kernels : List (Kernel K) := []

inductive Event (K : Type) where
  | install (task : Task K)
  /-- An install goes on. -/
  | go (job : Nat) (reply : Reply)
  /-- A kernel is to be started, on a library, an environment or neither. -/
  | start (kind : Kind) (path : Option K)
  /-- A kernel that is to be started goes on. -/
  | look (kernel : Nat)
deriving DecidableEq

def Task.path {K : Type} : Task K → K
  | r library _ => library
  | python venv _ => venv
  | environment venv _ => venv

def At.hold : At → Option Nat
  | asking hold _ => some hold
  | working hold => hold
  | _ => none

section

variable {K : Type} [DecidableEq K]

namespace State

def holdInstall (path : K) (s : State K) : State K :=
  { s with
    holds := s.holds ++ [⟨path, false⟩]
    installHolds := Function.update s.installHolds path (some s.holds.length) }

/-- The function that `holdInstall` returned is called. -/
def release (hold : Nat) (s : State K) : State K :=
  match s.holds[hold]? with
  | none => s
  | some h =>
    { s with
      holds := s.holds.set hold { h with released := true }
      installHolds :=
        -- a later hold of the path may be in the slot
        if s.installHolds h.path = some hold then Function.update s.installHolds h.path none
        else s.installHolds }

def releaseAll (hold : Option Nat) (s : State K) : State K :=
  match hold with
  | none => s
  | some hold => s.release hold

/-- A hold of the path is not released. -/
def held (s : State K) (path : K) : Bool :=
  s.holds.any fun h => decide (h.path = path) && !h.released

def setJob (job : Nat) (j : Job K) (s : State K) : State K := { s with jobs := s.jobs.set job j }

def setKernel (kernel : Nat) (k : Kernel K) (s : State K) : State K :=
  { s with kernels := s.kernels.set kernel k }

def lock (job : Nat) (path : K) (s : State K) : State K :=
  { s with locks := Function.update s.locks path (some job) }

def unlock (job : Nat) (path : K) (s : State K) : State K :=
  { s with
    locks := if s.locks path = some job then Function.update s.locks path none else s.locks }

end State

/-! ## An install -/

/-- Held, then `sessionsUsing`. -/
def holdThenAsk (job : Nat) (task : Task K) (planned : Bool) (s : State K) : State K :=
  (s.holdInstall task.path).setJob job ⟨task, .asking s.holds.length planned⟩

/-- `finally` -/
def finish (job : Nat) (j : Job K) (s : State K) : State K :=
  ((s.releaseAll j.state.hold).unlock job j.task.path).setJob job ⟨j.task, .done⟩

/-- Sessions use the path: the hold is released, and looked for again later. -/
def inUse (job : Nat) (task : Task K) (hold : Nat) (planned : Bool) (s : State K) : State K :=
  match task, planned with
  -- while sessions use the environment, pip is asked what would be replaced
  | .python _ _, false => (s.release hold).setJob job ⟨task, .planning⟩
  | .environment _ _, _ => (s.release hold).setJob job ⟨task, .sleeping⟩
  | .r _ whenInUse, _ | .python _ whenInUse, true =>
    if whenInUse = .defer then finish job ⟨task, .asking hold planned⟩ s
    else (s.release hold).setJob job ⟨task, .sleeping⟩

def go (job : Nat) (reply : Reply) (s : State K) : State K :=
  match s.jobs[job]? with
  | none => s
  | some j =>
    match j.state, reply with
    | .done, _ => s
    | _, .rejected => finish job j s
    | .called, .resolved =>
      match j.task with
      -- no lock is taken of an environment that is made
      | .environment _ true => holdThenAsk job j.task true s
      | .environment venv false =>
        (s.holdInstall venv).setJob job ⟨j.task, .working (some s.holds.length)⟩
      | task =>
        if s.locks task.path = none then (s.lock job task.path).setJob job ⟨task, .locked⟩ else s
    | .locked, .resolved =>
      match j.task with
      | .r _ .proceed | .python _ .proceed => s.setJob job ⟨j.task, .working none⟩
      | .r _ _ => s.setJob job ⟨j.task, .planning⟩
      | _ => holdThenAsk job j.task false s
    | .planning, .plan none => finish job j s
    | .planning, .plan (some false) => s.setJob job ⟨j.task, .working none⟩
    | .planning, .plan (some true) => holdThenAsk job j.task true s
    | .asking hold _, .inUse false => s.setJob job ⟨j.task, .working (some hold)⟩
    | .asking hold planned, .inUse true => inUse job j.task hold planned s
    | .sleeping, .resolved => holdThenAsk job j.task true s
    | .working _, .resolved => finish job j s
    | _, _ => s

/-! ## A kernel -/

/-- One turn of the wait. -/
def looks (kernel : Nat) (k : Kernel K) (s : State K) : State K :=
  match k.path with
  | none => s.setKernel kernel { k with phase := .started false }
  | some path =>
    match k.kind, s.installHolds path with
    -- a restart does not look
    | .restart, _ => s.setKernel kernel { k with phase := .started (s.held path) }
    | _, none => s.setKernel kernel { k with phase := .started (s.held path) }
    -- it awaits the promise, and looks at the slot again
    | _, some hold => s.setKernel kernel { k with phase := .waiting hold }

def look (kernel : Nat) (s : State K) : State K :=
  match s.kernels[kernel]? with
  | none => s
  | some k =>
    match k.phase with
    | .asked => looks kernel k s
    | .waiting hold =>
      -- the promise is resolved once the hold is released
      if (s.holds[hold]?.any fun h => h.released) then looks kernel k s else s
    | .started _ => s

def step (s : State K) : Event K → State K
  | .install task => { s with jobs := s.jobs ++ [⟨task, .called⟩] }
  | .go job reply => go job reply s
  | .start kind path => { s with kernels := s.kernels ++ [⟨kind, path, .asked⟩] }
  | .look kernel => look kernel s

def system : System (State K) (Event K) := System.ofFn {} step

/-! ## The property -/

/-- **Holds keep kernels out**: none was started while a hold of its path was not released, and one
that looks now finds a hold where there is one. -/
structure KeptOut (s : State K) : Prop where
  kept : ∀ k ∈ s.kernels, k.phase ≠ .started true
  waits : ∀ path, s.held path = true → s.installHolds path ≠ none

/-- The hold an install releases when it goes on. -/
def releases (j : Job K) (reply : Reply) : Option Nat :=
  match j.state, reply with
  | .asking _ _, .inUse false => none
  | .asking hold _, .inUse true | .asking hold _, .rejected => some hold
  | .working hold, .resolved | .working hold, .rejected => hold
  | _, _ => none

/-- The hold is not the one in its path's slot, or no other one of the path is unreleased. -/
def State.last (s : State K) (hold : Nat) : Bool :=
  match s.holds[hold]? with
  | none => true
  | some h => decide (s.installHolds h.path ≠ some hold) ||
      !(s.holds.set hold { h with released := true }).any fun h' =>
        decide (h'.path = h.path) && !h'.released

def orderly (s : State K) : Event K → Bool
  | .go job reply => s.jobs[job]?.all fun j => (releases j reply).all s.last
  | .look kernel => s.kernels[kernel]?.all fun k =>
      decide (k.kind ≠ .restart) || k.path.all fun path => !s.held path
  | _ => true

end

/-! ## The slot of a path that is held -/

section

variable {K : Type} [DecidableEq K] {s s' : State K}

structure Inv (s : State K) : Prop where
  slot : ∀ path hold, s.installHolds path = some hold → s.holds[hold]? = some ⟨path, false⟩
  waits : ∀ path, s.held path = true → s.installHolds path ≠ none
  kept : ∀ k ∈ s.kernels, k.phase ≠ .started true

theorem held_iff {path : K} : s.held path = true ↔ ⟨path, false⟩ ∈ s.holds := by
  unfold State.held
  constructor
  · intro h
    obtain ⟨⟨path', released⟩, hmem, hhold⟩ := List.any_eq_true.mp h
    obtain ⟨rfl, rfl⟩ : path' = path ∧ released = false := by simpa using hhold
    exact hmem
  · intro h
    exact List.any_eq_true.mpr ⟨_, h, by simp⟩

theorem Inv.congr (hs : Inv s) (hslots : s'.installHolds = s.installHolds)
    (hholds : s'.holds = s.holds) (hkernels : s'.kernels = s.kernels) : Inv s' where
  slot := by
    rw [hslots, hholds]
    exact hs.slot
  waits := by
    intro path hheld
    rw [hslots]
    rw [held_iff, hholds, ← held_iff] at hheld
    exact hs.waits path hheld
  kept := by
    rw [hkernels]
    exact hs.kept

theorem Inv.holdInstall (hs : Inv s) (path : K) : Inv (s.holdInstall path) where
  slot := by
    intro path' hold hslot
    simp only [State.holdInstall] at hslot ⊢
    by_cases heq : path' = path
    · subst heq
      rw [Function.update_self] at hslot
      obtain rfl := Option.some.inj hslot
      exact List.getElem?_concat_length ..
    · rw [Function.update_of_ne heq] at hslot
      -- another path's hold is where it was
      have hold := hs.slot path' hold hslot
      exact Log.getElem?_old hold
  waits := by
    intro path' hheld
    simp only [State.holdInstall]
    by_cases heq : path' = path
    · rw [heq, Function.update_self]
      simp
    · rw [Function.update_of_ne heq]
      rw [held_iff] at hheld
      simp only [State.holdInstall, List.mem_append, List.mem_singleton, Hold.mk.injEq, heq,
        false_and, or_false] at hheld
      exact hs.waits path' (held_iff.mpr hheld)
  kept := hs.kept

/-- A hold is released that is not the one in the slot, or that is the path's last. -/
theorem Inv.release (hs : Inv s) {hold : Nat} (hlast : s.last hold = true) :
    Inv (s.release hold) := by
  unfold State.release
  cases hh : s.holds[hold]? with
  | none => exact hs
  | some h =>
    simp only [State.last, hh, Bool.or_eq_true, decide_eq_true_eq, Bool.not_eq_true'] at hlast
    -- the released hold is in no other path's slot
    have hold_ne : ∀ path hold', s.installHolds path = some hold' →
        (s.installHolds h.path = some hold → path ≠ h.path) → hold' ≠ hold := by
      rintro path hold' hslot hne rfl
      have heq := hh.symm.trans (hs.slot path hold' hslot)
      obtain rfl : h = ⟨path, false⟩ := Option.some.inj heq
      exact hne hslot rfl
    -- what is held now was held before
    have held_of : ∀ path, ⟨path, false⟩ ∈ s.holds.set hold { h with released := true } →
        s.held path = true := by
      intro path hmem
      rcases List.mem_or_eq_of_mem_set hmem with hmem | heq
      · exact held_iff.mpr hmem
      · cases heq
    by_cases hslot : s.installHolds h.path = some hold
    · simp only [hslot, if_true]
      refine ⟨?_, ?_, hs.kept⟩
      · intro path hold' hpath
        dsimp only at hpath ⊢
        by_cases heq : path = h.path
        · rw [heq, Function.update_self] at hpath
          cases hpath
        · rw [Function.update_of_ne heq] at hpath
          rw [List.getElem?_set_ne (hold_ne path hold' hpath fun _ => heq).symm]
          exact hs.slot path hold' hpath
      · intro path hheld
        dsimp only
        by_cases heq : path = h.path
        · -- its path's last
          have hnone := hlast.resolve_left fun h => h hslot
          have hany := List.any_eq_false.mp hnone _ (held_iff.mp hheld)
          simp [heq] at hany
        · rw [Function.update_of_ne heq]
          exact hs.waits path (held_of path (held_iff.mp hheld))
    · simp only [hslot, if_false]
      refine ⟨?_, fun path hheld => hs.waits path (held_of path (held_iff.mp hheld)), hs.kept⟩
      intro path hold' hpath
      dsimp only
      rw [List.getElem?_set_ne (hold_ne path hold' hpath fun h => absurd h hslot).symm]
      exact hs.slot path hold' hpath

theorem Inv.releaseAll (hs : Inv s) {hold : Option Nat} (hlast : hold.all s.last = true) :
    Inv (s.releaseAll hold) := by
  cases hold with
  | none => exact hs
  | some hold => exact hs.release hlast

theorem Inv.setKernel (hs : Inv s) {kernel : Nat} {k : Kernel K} (hk : k.phase ≠ .started true) :
    Inv (s.setKernel kernel k) := by
  refine ⟨hs.slot, hs.waits, ?_⟩
  intro k' hk'
  rcases List.mem_or_eq_of_mem_set hk' with hmem | rfl
  · exact hs.kept k' hmem
  · exact hk

/-! ## Installs -/

variable {job : Nat} {j : Job K} {task : Task K} {planned : Bool}

theorem Inv.setJob (hs : Inv s) : Inv (s.setJob job j) := hs.congr rfl rfl rfl

theorem Inv.holdThenAsk (hs : Inv s) : Inv (holdThenAsk job task planned s) :=
  (hs.holdInstall _).setJob

theorem Inv.finish (hs : Inv s) (hlast : j.state.hold.all s.last = true) :
    Inv (finish job j s) :=
  (hs.releaseAll hlast).congr rfl rfl rfl

theorem Inv.inUse (hs : Inv s) {hold : Nat} (hlast : s.last hold = true) :
    Inv (inUse job task hold planned s) := by
  unfold InstallHolds.inUse
  split
  · exact (hs.release hlast).setJob
  · exact (hs.release hlast).setJob
  all_goals
    split
    · exact hs.finish hlast
    · exact (hs.release hlast).setJob

theorem Inv.go (hs : Inv s) {reply : Reply} (horderly : orderly s (.go job reply) = true) :
    Inv (go job reply s) := by
  unfold InstallHolds.go
  cases hj : s.jobs[job]? with
  | none => exact hs
  | some j =>
    have hlast : (releases j reply).all s.last = true := by
      simpa [orderly, hj] using horderly
    obtain ⟨task, state⟩ := j
    -- where it releases a hold, and where it holds
    cases state with
    | done => exact hs
    | called =>
      cases reply with
      | rejected => exact hs.finish rfl
      | resolved =>
        cases task with
        | environment venv other =>
          cases other with
          | true => exact hs.holdThenAsk
          | false => exact (hs.holdInstall venv).setJob
        | _ =>
          dsimp only
          split
          · exact hs.congr rfl rfl rfl
          · exact hs
      | _ => exact hs
    | locked =>
      cases reply with
      | rejected => exact hs.finish rfl
      | resolved =>
        dsimp only
        split
        · exact hs.setJob
        · exact hs.setJob
        · exact hs.setJob
        · exact hs.holdThenAsk
      | _ => exact hs
    | planning =>
      cases reply with
      | rejected => exact hs.finish rfl
      | plan replaces =>
        rcases replaces with _ | _ | _
        · exact hs.finish rfl
        · exact hs.setJob
        · exact hs.holdThenAsk
      | _ => exact hs
    | asking hold planned =>
      cases reply with
      | rejected => exact hs.finish hlast
      | inUse sessions =>
        cases sessions with
        | false => exact hs.setJob
        | true => exact hs.inUse hlast
      | _ => exact hs
    | sleeping =>
      cases reply with
      | rejected => exact hs.finish rfl
      | resolved => exact hs.holdThenAsk
      | _ => exact hs
    | working hold =>
      cases reply with
      | rejected => exact hs.finish hlast
      | resolved => exact hs.finish hlast
      | _ => exact hs

/-! ## Kernels -/

theorem Inv.looks (hs : Inv s) (kernel : Nat) {k : Kernel K}
    (hrestart : k.kind = .restart → ∀ path, k.path = some path → s.held path = false) :
    Inv (looks kernel k s) := by
  unfold InstallHolds.looks
  cases hpath : k.path with
  | none => exact hs.setKernel fun h => by cases h
  | some path =>
    have hfree : s.held path = false → Phase.started (s.held path) ≠ .started true := by
      intro hheld h
      rw [hheld] at h
      cases h
    dsimp only
    split
    · rename_i hkind
      exact hs.setKernel (hfree (hrestart hkind path hpath))
    · -- nothing is in the slot, so the path is not held
      rename_i hslot _
      refine hs.setKernel (hfree ?_)
      rw [← Bool.not_eq_true]
      exact fun hheld => hs.waits path hheld hslot
    · exact hs.setKernel fun h => by cases h

theorem Inv.look (hs : Inv s) {kernel : Nat} (horderly : orderly s (.look kernel) = true) :
    Inv (look kernel s) := by
  unfold InstallHolds.look
  cases hk : s.kernels[kernel]? with
  | none => exact hs
  | some k =>
    have hrestart : k.kind = .restart → ∀ path, k.path = some path → s.held path = false := by
      intro hkind path hpath
      simpa [orderly, hk, hkind, hpath] using horderly
    have hlooks := hs.looks kernel hrestart
    dsimp only
    split
    · exact hlooks
    · split
      · exact hlooks
      · exact hs
    · exact hs

theorem Inv.step (hs : Inv s) {e : Event K} (horderly : orderly s e = true) :
    Inv (step s e) := by
  cases e with
  | install task => exact hs.congr rfl rfl rfl
  | go job reply => exact hs.go horderly
  | look kernel => exact hs.look horderly
  | start kind path =>
    refine ⟨hs.slot, hs.waits, ?_⟩
    intro k hk
    rcases List.mem_append.mp hk with hk | hk
    · exact hs.kept k hk
    · rw [List.mem_singleton.mp hk]
      intro h
      cases h

theorem inv_init : Inv ({} : State K) where
  slot := fun path hold h => (by cases h)
  waits := fun path h => (by cases h)
  kept := fun k h => (by cases h)

/-- **No kernel passes a hold**, in every run in which what is released of a slot is the last hold of
its path, and no kernel is restarted on a path that is held. -/
theorem holds_keep_out :
    ∀ s : State K, (system.when fun s e => orderly s e = true).Reachable s → KeptOut s := by
  intro s hs
  have hinv : Inv s :=
    System.invariant_ofFn inv_init (fun _ _ hs horderly => hs.step horderly) hs
  exact ⟨hinv.kept, hinv.waits⟩

end

/-- Packages are installed into an environment; a session that is created meanwhile waits. -/
def installed : List (Event Unit) :=
  [.install (.python () .wait), .go 0 .resolved, .go 0 .resolved, .go 0 (.inUse false),
   .start .createSession (some ()), .look 0, .go 0 .resolved, .look 0]

theorem holds_keep_out_installed :
    ∃ s : State Unit, KeptOut s ∧ s.kernels = [⟨.createSession, some (), .started false⟩] := by
  refine ⟨installed.foldl step {}, ?_, by decide⟩
  apply holds_keep_out
  apply System.reachable_of_allSteps
  decide

/-- An environment is made twice at once, and the second making is over first; a session that waits
for it is started. -/
def madeTwice : List (Event Unit) :=
  [.install (.environment () false), .go 0 .resolved, .install (.environment () false),
   .go 1 .resolved, .start .createSession (some ()), .look 0, .go 1 .resolved, .look 0]

/-- A kernel is restarted while an environment is made. -/
def restarted : List (Event Unit) :=
  [.install (.environment () false), .go 0 .resolved, .start .restart (some ()), .look 0]

theorem hold_passed :
    (∃ s : State Unit, system.Reachable s ∧ s.held () = true ∧
      s.kernels = [⟨.createSession, some (), .started true⟩]) ∧
    ∃ s : State Unit, system.Reachable s ∧ s.held () = true ∧
      s.kernels = [⟨.restart, some (), .started true⟩] :=
  ⟨⟨madeTwice.foldl step {}, System.reachable_foldl .., by decide, by decide⟩,
    ⟨restarted.foldl step {}, System.reachable_foldl .., by decide, by decide⟩⟩

end Jovian.InstallHolds
