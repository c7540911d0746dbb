import Jovian.Lib.PathLock
import Jovian.Lib.Transition
import Mathlib.Logic.Function.Basic

/-!
# Jovian — one starter of the persistent supervisor (`takeStartLock`)

The start lock is an empty file beside the state file, made exclusively. A process that finds one
there stats it, removes it when it is older than a minute, and tries again. Nothing says whose the
lock is: who removes an old lock removes what is there by then, and so does who releases.

* **`one_starter`** — in every run in which a take-over does not remove a live starter's lock that
  has come in between (`timely`), one process at most has the lock, and the lock that its release
  removes is its own (`OneStarter`).
-/

namespace Jovian.StartLock

open Transition (System)

/-! ## Processes and lock files -/

/-- Where a process is in `takeStartLock`, and in what it returned. -/
inductive At where
  | idle
  | dead
  /-- Before `openSync` with `wx`. -/
  | opening
  /-- Before `statSync`: the open failed with `EEXIST`. -/
  | statting
  /-- Before `unlinkSync`: the lock `found` is old. -/
  | unlinking (found : Nat)
  /-- `undefined`: another process holds the lock. -/
  | refused
  /-- The release function of the lock `made`. -/
  | holding (made : Nat)
deriving DecidableEq

/-- The processes, and the lock files they have made, numbered. -/
structure State (P : Type) where
  procs : P → At := fun _ => .idle
  /-- Who made each. -/
  makers : List P := []
  mtime : Nat → Nat := fun _ => 0
  lockFile : Option Nat := none
  now : Nat := 0

inductive Event (P : Type) where
  /-- `startOrFind` finds no supervisor that answers. -/
  | call (p : P)
  /-- A process takes its next step at the file system. -/
  | act (p : P)
  /-- The open fails with another error. -/
  | openFails (p : P)
  /-- `startOrFind` ends. -/
  | finish (p : P)
  | crash (p : P)
  | tick (ms : Nat)
deriving DecidableEq

section

variable {P : Type} [DecidableEq P]

namespace State

def put (s : State P) (p : P) (a : At) : State P := { s with procs := Function.update s.procs p a }

/-- A lock whose maker is alive and has not released it. -/
def live (s : State P) (lock : Nat) : Bool :=
  s.makers[lock]?.any fun p => decide (s.procs p = .holding lock)

end State

def act (p : P) (s : State P) : State P :=
  match s.procs p with
  | .opening =>
    match s.lockFile with
    | none =>
      { s with
        makers := s.makers ++ [p]
        mtime := Function.update s.mtime s.makers.length s.now
        lockFile := some s.makers.length }.put p (.holding s.makers.length)
    | some _ => s.put p .statting
  | .statting =>
    match s.lockFile with
    | none => s.put p .refused
    | some lock =>
      s.put p (if 60000 < s.now - s.mtime lock then .unlinking lock else .refused)
  -- `unlinkSync` removes what is there, which need not be what was looked at
  | .unlinking _ =>
    match s.lockFile with
    | none => s.put p .refused
    | some _ => { s with lockFile := none }.put p .opening
  | _ => s

def step (s : State P) : Event P → State P
  | .call p =>
    match s.procs p with
    | .idle => s.put p .opening
    | _ => s
  | .act p => act p s
  | .openFails p =>
    match s.procs p with
    | .opening => s.put p .idle
    | _ => s
  | .finish p =>
    match s.procs p with
    -- the release removes what is there as well
    | .holding _ => { s with lockFile := none }.put p .idle
    | .refused => s.put p .idle
    | _ => s
  | .crash p => s.put p .dead
  | .tick ms => { s with now := s.now + ms }

/-- What is taken for granted: no live starter holds the lock longer than the stale limit. -/
def brief (s : State P) : Event P → Bool
  | .tick ms => (List.range s.makers.length).all fun lock =>
      !s.live lock || decide (s.now + ms ≤ s.mtime lock + 60000)
  | _ => true

def system : System (State P) (Event P) :=
  (System.ofFn {} step).when fun s e => brief s e = true

/-! ## The property -/

/-- **One starter**, and the lock that it would remove now is the one it made. -/
structure OneStarter (s : State P) : Prop where
  one : ∀ p q m n, s.procs p = .holding m → s.procs q = .holding n → p = q
  own : ∀ p n, s.procs p = .holding n → s.lockFile = some n

/-- A take-over removes the lock it has looked at, or one that no live starter holds. -/
def timely (s : State P) : Event P → Bool
  | .act p =>
    match s.procs p, s.lockFile with
    | .unlinking found, some lock => decide (lock = found) || !s.live lock
    | _, _ => true
  | _ => true

end

/-! ## Who has made the lock that is there -/

section

variable {P : Type} {s : State P} {p q : P} {a : At} {lockFile : Option Nat}

/-- Somebody who is alive has the lock. -/
def State.Claimed (s : State P) (lock : Nat) : Prop := ∃ p, s.procs p = .holding lock

structure Inv (s : State P) : Prop where
  maker : ∀ p n, s.procs p = .holding n → s.makers[n]? = some p
  brief : ∀ n, s.Claimed n → s.now ≤ s.mtime n + 60000
  judged : ∀ p n, s.procs p = .unlinking n → n < s.makers.length ∧ ¬s.Claimed n
  placed : ∀ n, s.lockFile = some n → n < s.makers.length
  kept : PathLock.Kept s.lockFile (fun _ => False) s.Claimed

theorem Inv.oneStarter (hs : Inv s) : OneStarter s where
  one := by
    intro p q m n hp hq
    obtain rfl := hs.kept.one m n ⟨p, hp⟩ ⟨q, hq⟩
    exact Option.some.inj ((hs.maker p m hp).symm.trans (hs.maker q m hq))
  own := by
    intro p n hp
    exact (hs.kept.kept n ⟨p, hp⟩).resolve_right fun h => h.2

theorem inv_init : Inv ({} : State P) where
  maker := fun p n hp => (by cases hp)
  brief := fun n ⟨p, hp⟩ => (by cases hp)
  judged := fun p n hp => (by cases hp)
  placed := fun n hn => (by cases hn)
  kept := ⟨fun m n ⟨p, hp⟩ => (by cases hp), fun n ⟨p, hp⟩ => (by cases hp)⟩

theorem Inv.live_iff (hs : Inv s) {n : Nat} : s.live n = true ↔ s.Claimed n := by
  unfold State.live
  constructor
  · intro h
    obtain ⟨p, -, hp⟩ := (Option.any_eq_true _ _).mp h
    exact ⟨p, of_decide_eq_true hp⟩
  · rintro ⟨p, hp⟩
    rw [hs.maker p n hp]
    exact decide_eq_true hp

variable [DecidableEq P]

@[simp] theorem put_self : (s.put p a).procs p = a := Function.update_self ..

theorem put_of_ne (h : q ≠ p) : (s.put p a).procs q = s.procs q := Function.update_of_ne h ..

theorem claimed_put (ha : ∀ n, a ≠ .holding n) {n : Nat} (hn : (s.put p a).Claimed n) :
    ∃ q, q ≠ p ∧ s.procs q = .holding n := by
  obtain ⟨q, hq⟩ := hn
  by_cases heq : q = p
  · subst heq
    rw [put_self] at hq
    exact absurd hq (ha n)
  · rw [put_of_ne heq] at hq
    exact ⟨q, heq, hq⟩

/-- A step that makes no lock. -/
theorem Inv.put (hs : Inv s) (ha : ∀ n, a ≠ .holding n)
    (hjudged : ∀ n, a = .unlinking n → n < s.makers.length ∧ ¬s.Claimed n)
    (hplaced : ∀ n, lockFile = some n → n < s.makers.length)
    (hkept : PathLock.Kept lockFile (fun _ => False) (s.put p a).Claimed) :
    Inv ({ s with lockFile }.put p a) := by
  have hclaimed : ∀ n, ({ s with lockFile }.put p a).Claimed n → s.Claimed n := by
    intro n hn
    obtain ⟨q, -, hq⟩ := claimed_put ha hn
    exact ⟨q, hq⟩
  refine ⟨?_, fun n hn => hs.brief n (hclaimed n hn), ?_, hplaced, hkept⟩
  · intro q n hq
    by_cases heq : q = p
    · subst heq
      rw [put_self] at hq
      exact absurd hq (ha n)
    · rw [put_of_ne heq] at hq
      exact hs.maker q n hq
  · intro q n hq
    -- no lock gets an owner by this step
    have hold : n < s.makers.length ∧ ¬s.Claimed n := by
      by_cases heq : q = p
      · subst heq
        rw [put_self] at hq
        exact hjudged n hq
      · rw [put_of_ne heq] at hq
        exact hs.judged q n hq
    exact ⟨hold.1, fun h => hold.2 (hclaimed n h)⟩

/-- A step that leaves the path alone. -/
theorem Inv.quiet (hs : Inv s) (ha : ∀ n, a ≠ .holding n)
    (hjudged : ∀ n, a = .unlinking n → n < s.makers.length ∧ ¬s.Claimed n) : Inv (s.put p a) := by
  refine hs.put ha hjudged hs.placed (hs.kept.mono ?_ fun _ _ h => h)
  intro n hn
  obtain ⟨q, -, hq⟩ := claimed_put ha hn
  exact ⟨q, hq⟩

/-- What is at the path is removed; it is no other process's that is alive. -/
theorem Inv.unlink (hs : Inv s) (ha : ∀ n, a ≠ .holding n) (hnot : ∀ n, a ≠ .unlinking n)
    (hothers : ∀ n q, s.lockFile = some n → q ≠ p → s.procs q ≠ .holding n) :
    Inv ({ s with lockFile := none }.put p a) := by
  refine hs.put ha (fun n hn => absurd hn (hnot n)) (fun _ hn => by cases hn) ?_
  have hkept : PathLock.Kept s.lockFile (fun _ => False) (s.put p a).Claimed := by
    refine hs.kept.mono ?_ fun _ _ h => h
    intro n hn
    obtain ⟨q, -, hq⟩ := claimed_put ha hn
    exact ⟨q, hq⟩
  cases hplace : s.lockFile with
  | none =>
    rw [hplace] at hkept
    exact hkept
  | some lock =>
    rw [hplace] at hkept
    refine hkept.vacate ?_
    intro hclaimed
    obtain ⟨q, hne, hq⟩ := claimed_put ha hclaimed
    exact hothers lock q hplace hne hq

theorem Inv.create (hs : Inv s) (hfree : s.lockFile = none) :
    Inv ({ s with
      makers := s.makers ++ [p]
      mtime := Function.update s.mtime s.makers.length s.now
      lockFile := some s.makers.length }.put p (.holding s.makers.length)) := by
  have hkept := hs.kept
  rw [hfree] at hkept
  -- nobody has a lock: it would be at the path
  have hnone : ∀ n, ¬s.Claimed n := fun n hn => hkept.aside_of_none hn
  have hclaimed : ∀ n, (s.put p (.holding s.makers.length)).Claimed n →
      n = s.makers.length := by
    rintro n ⟨q, hq⟩
    by_cases heq : q = p
    · subst heq
      rw [put_self] at hq
      exact (At.holding.inj hq).symm
    · rw [put_of_ne heq] at hq
      exact absurd ⟨q, hq⟩ (hnone n)
  constructor
  case maker =>
    intro q n hq
    by_cases heq : q = p
    · subst heq
      rw [put_self] at hq
      obtain rfl := At.holding.inj hq
      exact List.getElem?_concat_length ..
    · rw [put_of_ne heq] at hq
      exact absurd ⟨q, hq⟩ (hnone n)
  case brief =>
    intro n hn
    obtain rfl := hclaimed n hn
    show s.now ≤ Function.update s.mtime s.makers.length s.now s.makers.length + 60000
    rw [Function.update_self]
    omega
  case judged =>
    intro q n hq
    have hlt : n < s.makers.length := by
      by_cases heq : q = p
      · subst heq
        rw [put_self] at hq
        cases hq
      · rw [put_of_ne heq] at hq
        exact (hs.judged q n hq).1
    refine ⟨?_, fun h => absurd (hclaimed n h) (by omega)⟩
    show n < (s.makers ++ [p]).length
    rw [List.length_append]
    omega
  case placed =>
    intro n hn
    obtain rfl : s.makers.length = n := Option.some.inj hn
    show s.makers.length < (s.makers ++ [p]).length
    rw [List.length_append]
    exact Nat.lt_add_one _
  case kept =>
    exact hkept.take (fun _ h => h.elim) _ fun n hn => .inr (hclaimed n hn)

theorem Inv.act (hs : Inv s) (htimely : timely s (.act p) = true) : Inv (act p s) := by
  unfold StartLock.act
  cases hp : s.procs p with
  | opening =>
    cases hplace : s.lockFile with
    | none => exact hs.create hplace
    | some lock => exact hs.quiet (fun _ h => by cases h) fun _ h => by cases h
  | statting =>
    cases hplace : s.lockFile with
    | none => exact hs.quiet (fun _ h => by cases h) fun _ h => by cases h
    | some lock =>
      refine hs.quiet (fun n h => by split at h <;> cases h) ?_
      intro n hn
      split at hn
      · -- a lock older than a minute is no live starter's
        rename_i hold
        obtain rfl := At.unlinking.inj hn
        refine ⟨hs.placed lock hplace, fun hclaimed => ?_⟩
        have hbrief := hs.brief lock hclaimed
        omega
      · cases hn
  | unlinking found =>
    cases hplace : s.lockFile with
    | none => exact hs.quiet (fun _ h => by cases h) fun _ h => by cases h
    | some lock =>
      refine hs.unlink (fun _ h => by cases h) (fun _ h => by cases h) ?_
      intro n q hn _ hq
      obtain rfl : lock = n := Option.some.inj (hplace.symm.trans hn)
      simp only [timely, hp, hplace, Bool.or_eq_true, decide_eq_true_eq, Bool.not_eq_true']
        at htimely
      -- it is the old lock it has looked at, or one whose starter is gone
      rcases htimely with rfl | hlive
      · exact (hs.judged p lock hp).2 ⟨q, hq⟩
      · rw [hs.live_iff.mpr ⟨q, hq⟩] at hlive
        cases hlive
  | _ => exact hs

theorem Inv.step (hs : Inv s) {e : Event P} (hbrief : StartLock.brief s e = true)
    (htimely : timely s e = true) : Inv (step s e) := by
  cases e with
  | act p => exact hs.act htimely
  -- a lock whose starter crashes is nobody's
  | crash p => exact hs.quiet (fun _ h => by cases h) fun _ h => by cases h
  | call p =>
    simp only [StartLock.step]
    split
    · exact hs.quiet (fun _ h => by cases h) fun _ h => by cases h
    · exact hs
  | openFails p =>
    simp only [StartLock.step]
    split
    · exact hs.quiet (fun _ h => by cases h) fun _ h => by cases h
    · exact hs
  | finish p =>
    simp only [StartLock.step]
    split
    · rename_i made hp
      refine hs.unlink (fun _ h => by cases h) (fun _ h => by cases h) ?_
      intro n q hn hne hq
      -- the lock at the path is the one it made
      obtain rfl := hs.kept.one n made ⟨q, hq⟩ ⟨p, hp⟩
      exact hne (Option.some.inj ((hs.maker q n hq).symm.trans (hs.maker p n hp)))
    · exact hs.quiet (fun _ h => by cases h) fun _ h => by cases h
    · exact hs
  | tick ms =>
    refine ⟨hs.maker, ?_, hs.judged, hs.placed, hs.kept⟩
    intro n hn
    obtain ⟨p, hp⟩ := hn
    -- it has been made, so `brief` looks at it
    have hlt := (List.getElem?_eq_some_iff.mp (hs.maker p n hp)).1
    have hall := List.all_eq_true.mp hbrief n (List.mem_range.mpr hlt)
    rw [hs.live_iff.mpr ⟨p, hp⟩] at hall
    show s.now + ms ≤ s.mtime n + 60000
    simpa using hall

/-- **One starter at a time**, in every run in which no take-over removes a live starter's lock that
has come in between. -/
theorem one_starter :
    ∀ s : State P, (system.when fun s e => timely s e = true).Reachable s → OneStarter s := by
  intro s hs
  apply Inv.oneStarter
  exact System.invariant_ofFn inv_init (fun _ _ hs h => hs.step h.1 h.2)
    (System.reachable_when_when.mp hs)

end

/-- A starter dies; two more find its lock a minute later, and one takes it over. -/
def takeover : List (Event (Fin 3)) :=
  [.call 0, .act 0, .crash 0, .tick 60001,
   .call 1, .act 1, .act 1, .call 2, .act 2, .act 2, .act 2, .act 2]

theorem one_starter_takeover :
    ∃ s : State (Fin 3), OneStarter s ∧ s.procs 2 = .holding 1 := by
  refine ⟨takeover.foldl step {}, ?_, by decide⟩
  have hsteps : System.allSteps step (fun s e => brief s e && timely s e) {} takeover = true := by
    decide
  apply one_starter
  apply System.reachable_when_when.mpr
  simpa using System.reachable_of_allSteps hsteps

/-- The other one removes the lock that took the place of the one it has looked at. -/
def takenTwice : List (Event (Fin 3)) := takeover ++ [.act 1, .act 1]

theorem two_starters : ∃ s : State (Fin 3), system.Reachable s ∧
    s.procs 2 = .holding 1 ∧ s.procs 1 = .holding 2 ∧ s.lockFile = some 2 := by
  refine ⟨takenTwice.foldl step {}, ?_, by decide, by decide, by decide⟩
  apply System.reachable_of_allSteps
  decide

end Jovian.StartLock
