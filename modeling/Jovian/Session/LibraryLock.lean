import Jovian.Lib.Log
import Jovian.Lib.PathLock
import Jovian.Lib.Transition
import Mathlib.Logic.Function.Basic

/-!
# Jovian — one install at a time in a library (`lockLibrary`)

The lock is a file in the library, created exclusively; its text holds its owner's pid and token.
A process that finds one there reads it, stats it, and takes it for a crashed install's when its
owner is not running or it has not been refreshed for long. Then it moves the file aside, reads it
again, and puts it back when it is not the text that was judged.

Between the move and the link the path is free. Whoever creates the lock then holds the library
beside the owner of the lock that is aside, and the link fails.

* **`library_exclusive`** — in every run in which no live owner's lock is aside at the wrong moment
  (`careful`), one live process at most holds the library, and its lock is in place or is put back
  (`Exclusive`).
-/

namespace Jovian.LibraryLock

open Transition (System)

/-! ## Processes and files -/

/-- What `readFile` gives of a lock file; a lock's text is known by its token. -/
inductive Text where
  | undefined
  /-- Just created and not written yet. -/
  | empty
  | lock (token : Nat)
deriving DecidableEq

/-- The text has a pid, and its process is not running. -/
def Text.gone (text : Text) (running : Bool) : Bool :=
  match text with
  | .lock _ => !running
  | _ => false

/-- Where a process is in `lockLibrary`, and in the function that gives the library back. -/
inductive At where
  | idle
  | dead
  | trying (token : Nat)
  /-- The file is there, its text is not. -/
  | created (token : Nat)
  /-- `lockLibrary` has returned. -/
  | holding (token : Nat)
  /-- Before `read`, in the function it returned. -/
  | releasing (token : Nat)
  /-- Before `rm`. -/
  | removing (token : Nat)
  /-- The create failed with `EEXIST`. -/
  | reading (token : Nat)
  | statting (token : Nat) (text : Text)
  /-- Before `isRunning`. -/
  | checking (token : Nat) (text : Text) (silent : Bool)
  /-- Before `rename`. -/
  | moving (token : Nat) (text : Text)
  /-- The lock `lock` is at `aside`, to be read. -/
  | moved (token : Nat) (text : Text) (lock : Nat)
  | linking (token : Nat) (lock : Nat)
  /-- Before `rm` of `aside`. -/
  | clearing (token : Nat)
  | sleeping (token : Nat)
deriving DecidableEq

/-- The processes, and the lock files they have made, by token. -/
structure State (P : Type) where
  procs : P → At := fun _ => .idle
  /-- Whose each token is. -/
  owners : List P := []
  lockFile : Option Nat := none
  written : Nat → Bool := fun _ => false
  mtime : Nat → Nat := fun _ => 0
  now : Nat := 0

inductive Event (P : Type) where
  /-- `lockLibrary` is called. -/
  | call (p : P)
  /-- A process takes its next step at the file system. -/
  | act (p : P)
  /-- `isRunning` answers. -/
  | judge (p : P) (running : Bool)
  /-- The file was created and could not be written. -/
  | writeFails (p : P)
  /-- The function that gives the library back is called. -/
  | release (p : P)
  | beat (p : P)
  | crash (p : P)
  | tick (ms : Nat)
deriving DecidableEq

namespace At

/-- The lock a process has made and not given back. -/
def claims : At → Option Nat
  | created token => some token
  | holding token => some token
  | _ => none

/-- The lock a process has moved off the path. -/
def aside : At → Option Nat
  | moved _ _ lock => some lock
  | linking _ lock => some lock
  | _ => none

end At

section

variable {P : Type} [DecidableEq P]

namespace State

def put (s : State P) (p : P) (a : At) : State P := { s with procs := Function.update s.procs p a }

/-- The text of a lock file. -/
def text (s : State P) (lock : Nat) : Text := if s.written lock then .lock lock else .empty

/-- `read(lockFile)` -/
def read (s : State P) : Text :=
  match s.lockFile with
  | none => .undefined
  | some lock => s.text lock

/-- A lock whose owner is alive and has not given it back. -/
def live (s : State P) (lock : Nat) : Bool :=
  s.owners.any fun p => (s.procs p).claims = some lock

end State

variable (staleMs : P → Nat)

def act (p : P) (s : State P) : State P :=
  match s.procs p with
  -- `wx` creates the file where there is none
  | .trying token =>
    match s.lockFile with
    | none =>
      { s with lockFile := some token, mtime := Function.update s.mtime token s.now }.put p
        (.created token)
    | some _ => s.put p (.reading token)
  | .created token =>
    { s with
      written := Function.update s.written token true
      mtime := Function.update s.mtime token s.now }.put p (.holding token)
  -- another's lock is left where it is
  | .releasing token => s.put p (if s.read = .lock token then .removing token else .idle)
  -- `rm` goes by the path, whoever's lock is there by now
  | .removing _ => { s with lockFile := none }.put p .idle
  | .reading token => s.put p (.statting token s.read)
  | .statting token text =>
    match s.lockFile with
    | none => s.put p (.sleeping token)
    | some lock => s.put p (.checking token text (decide (staleMs p < s.now - s.mtime lock)))
  -- `rename` takes whatever is there, which need not be what was judged
  | .moving token text =>
    match s.lockFile with
    | none => s.put p (.trying token)
    | some lock => { s with lockFile := none }.put p (.moved token text lock)
  | .moved token text lock =>
    -- what was judged is removed, another lock is put back
    s.put p (if s.text lock = text then .clearing token else .linking token lock)
  -- the link fails where a file is
  | .linking token lock => { s with lockFile := s.lockFile <|> some lock }.put p (.clearing token)
  | .clearing token => s.put p (.trying token)
  | .sleeping token => s.put p (.trying token)
  | _ => s

def step (s : State P) : Event P → State P
  -- a call makes its token before it tries
  | .call p =>
    match s.procs p with
    | .idle => { s with owners := s.owners ++ [p] }.put p (.trying s.owners.length)
    | _ => s
  | .act p => act staleMs p s
  | .judge p running =>
    match s.procs p with
    | .checking token text silent =>
      s.put p (if silent || text.gone running then .moving token text else .sleeping token)
    | _ => s
  | .writeFails p =>
    match s.procs p with
    | .created _ => s.put p .idle
    | _ => s
  | .release p =>
    match s.procs p with
    | .holding token => s.put p (.releasing token)
    | _ => s
  | .beat p =>
    match s.procs p, s.lockFile with
    -- `utimes` goes by the path, whoever's lock is there
    | .holding _, some lock => { s with mtime := Function.update s.mtime lock s.now }
    | _, _ => s
  | .crash p => s.put p .dead
  | .tick ms => { s with now := s.now + ms }

/-- What is taken for granted: a live owner's lock is refreshed, so it is not seen stale, and a
process that runs is not reported gone. -/
def refreshed (s : State P) : Event P → Bool
  | .act p =>
    match s.procs p, s.lockFile with
    | .statting _ _, some lock => !s.live lock || decide (s.now - s.mtime lock ≤ staleMs p)
    | _, _ => true
  | .judge p running =>
    match s.procs p with
    | .checking _ (.lock lock) _ =>
      running || s.owners[lock]?.all fun q => decide (s.procs q = .dead)
    | _ => true
  | _ => true

def system : System (State P) (Event P) :=
  (System.ofFn {} (step staleMs)).when fun s e => refreshed staleMs s e = true

/-! ## The property -/

/-- A live process has moved the lock aside, and puts it back. -/
def PutsBack (s : State P) (q : P) (lock : Nat) : Prop :=
  (∃ token, s.procs q = .linking token lock) ∨
  ∃ token text, s.procs q = .moved token text lock ∧ s.text lock ≠ text

/-- **Mutual exclusion**: one live process at most holds the library, and nobody has removed its
lock or left it aside. -/
structure Exclusive (s : State P) : Prop where
  one : ∀ p q m n, s.procs p = .holding m → s.procs q = .holding n → p = q
  kept : ∀ p n, s.procs p = .holding n →
    s.lockFile = some n ∨ s.lockFile = none ∧ ∃ q, PutsBack s q n

/-- Every lock that is aside satisfies `ok`. -/
def State.asides (s : State P) (ok : Nat → Bool) : Bool :=
  s.owners.all fun q => (s.procs q).aside.all ok

/-- While a live owner's lock is aside, no lock is created, no other is put back, and the process
that moved it does not crash. A live owner's lock that is not written yet is not taken for one that
was never written; and a process that gives the library back does not remove another's lock. -/
def careful (s : State P) : Event P → Bool
  | .act p =>
    match s.procs p, s.lockFile with
    | .trying _, none => s.asides fun n => !s.live n
    | .linking _ lock, none => s.asides fun n => decide (n = lock) || !s.live n
    | .moved _ .empty lock, _ => s.written lock || !s.live lock
    | .removing _, some lock => !s.live lock
    | _, _ => true
  | .crash p => (s.procs p).aside.all fun n => !s.live n
  | _ => true

end

/-! ## What each process knows -/

namespace At

/-- The token of the call. -/
def token : At → Option Nat
  | idle | dead => none
  | trying token | created token | holding token | releasing token | removing token
  | reading token | statting token _ | checking token _ _ | moving token _ | moved token _ _
  | linking token _ | clearing token | sleeping token => some token

/-- The token of a call that has not made its lock. -/
def waits : At → Option Nat
  | trying token | reading token | statting token _ | checking token _ _ | moving token _
  | moved token _ _ | linking token _ | clearing token | sleeping token => some token
  | _ => none

/-- The text that was read of the lock file. -/
def text : At → Option Text
  | statting _ text | checking _ text _ | moving _ text | moved _ text _ => some text
  | _ => none

/-- The text of a lock that was found to be a crashed install's. -/
def judged : At → Option Text
  | checking _ text true | moving _ text | moved _ text _ => some text
  | _ => none

theorem token_of_waits {a : At} {t : Nat} (h : a.waits = some t) : a.token = some t := by
  cases a <;> first | exact h | cases h

theorem token_of_claims {a : At} {t : Nat} (h : a.claims = some t) : a.token = some t := by
  cases a <;> first | exact h | cases h

theorem claims_of_waits {a : At} {t : Nat} (h : a.waits = some t) : a.claims = none := by
  cases a <;> first | rfl | cases h

theorem token_of_aside {a : At} {n : Nat} (h : a.aside = some n) : ∃ t, a.token = some t := by
  cases a <;> first | exact ⟨_, rfl⟩ | cases h

theorem text_of_judged {a : At} {text : Text} (h : a.judged = some text) : a.text = some text := by
  cases a with
  | checking _ _ silent =>
    cases silent with
    | true => exact h
    | false => cases h
  | _ => first | exact h | cases h

end At

section

variable {P : Type} {s s' : State P} {p q : P} {a : At}

namespace State

theorem written_of_text {lock n : Nat} (h : s.text lock = .lock n) : s.written n = true := by
  unfold text at h
  split at h
  · rename_i hwritten
    exact Text.lock.inj h ▸ hwritten
  · cases h

theorem written_of_read {n : Nat} (h : s.read = .lock n) : s.written n = true := by
  unfold read at h
  split at h
  · cases h
  · exact written_of_text h

/-- Somebody who is alive has made the lock and not given it back. -/
def Claimed (s : State P) (lock : Nat) : Prop := ∃ p, (s.procs p).claims = some lock

def Aside (s : State P) (lock : Nat) : Prop := ∃ q, (s.procs q).aside = some lock

end State

open State

/-- What holds where `p` is at a point `a` of a call. -/
structure Local (s : State P) (p : P) (a : At) : Prop where
  owner : ∀ t, a.token = some t → s.owners[t]? = some p
  fresh : ∀ t, a.waits = some t → s.written t = false
  signed : ∀ t, a = .holding t → s.written t = true
  read : ∀ n, a.text = some (.lock n) → s.written n = true
  judged : ∀ n, a.judged = some (.lock n) → ¬s.Claimed n

structure Inv (s : State P) : Prop where
  calls : ∀ p, Local s p (s.procs p)
  known : ∀ n, s.written n = true → ∃ q, s.owners[n]? = some q
  kept : PathLock.Kept s.lockFile s.Aside s.Claimed

theorem Local.idle : Local s p .idle := by
  constructor <;> (intro _ h; cases h)

theorem Local.dead : Local s p .dead := by
  constructor <;> (intro _ h; cases h)

/-- A call that waits goes on waiting. -/
theorem Local.wait {b : At} {t : Nat} (h : Local s p a) (ha : a.waits = some t)
    (hb : b.waits = some t) (hread : ∀ n, b.text = some (.lock n) → s.written n = true)
    (hjudged : ∀ n, b.judged = some (.lock n) → ¬s.Claimed n) : Local s p b where
  owner := by
    intro u hu
    obtain rfl : t = u := Option.some.inj ((At.token_of_waits hb).symm.trans hu)
    exact h.owner t (At.token_of_waits ha)
  fresh := fun u hu => h.fresh u (ha.trans (hb.symm.trans hu))
  signed := by
    rintro u rfl
    cases hb
  read := hread
  judged := hjudged

/-- A call that has made its lock, or is about to. -/
theorem Local.owned {t : Nat} (howner : s.owners[t]? = some p) (ha : a.token = some t)
    (hwaits : a.waits = none) (htext : a.text = none)
    (hsigned : ∀ u, a = .holding u → s.written u = true) : Local s p a where
  owner := by
    intro u hu
    obtain rfl : t = u := Option.some.inj (ha.symm.trans hu)
    exact howner
  fresh := by
    intro u hu
    rw [hwaits] at hu
    cases hu
  signed := hsigned
  read := by
    intro n hn
    rw [htext] at hn
    cases hn
  judged := by
    intro n hn
    rw [At.text_of_judged hn] at htext
    cases htext

/-- Only `p` moves, and only its own lock comes to be. -/
structure Moves (s s' : State P) (p : P) : Prop where
  others : ∀ q, q ≠ p → s'.procs q = s.procs q
  owners : ∀ (t : Nat) q, s.owners[t]? = some q → s'.owners[t]? = some q
  written : ∀ n, s.written n = true → s'.written n = true
  own : ∀ n, s'.written n = true → s.written n = true ∨ s.owners[n]? = some p
  claims : ∀ n, (s'.procs p).claims = some n →
    (s.procs p).claims = some n ∨ s.written n = false

theorem Moves.claimed (h : Moves s s' p) {n : Nat} (hn : s'.Claimed n) :
    s.Claimed n ∨ s.written n = false := by
  obtain ⟨q, hq⟩ := hn
  by_cases heq : q = p
  · subst heq
    exact (h.claims n hq).imp_left fun hold => ⟨q, hold⟩
  · rw [h.others q heq] at hq
    exact .inl ⟨q, hq⟩

theorem Moves.local (h : Moves s s' p) (hs : Inv s) (hq : q ≠ p) : Local s' q (s.procs q) where
  owner := fun t ht => h.owners t q ((hs.calls q).owner t ht)
  fresh := by
    intro t ht
    rw [← Bool.not_eq_true]
    intro hwritten
    -- the lock that is written is `p`'s, and this call is another's
    rcases h.own t hwritten with hold | hp
    · rw [(hs.calls q).fresh t ht] at hold
      cases hold
    · have howner := (hs.calls q).owner t (At.token_of_waits ht)
      exact hq (Option.some.inj (howner.symm.trans hp))
  signed := fun t ht => h.written t ((hs.calls q).signed t ht)
  read := fun n hn => h.written n ((hs.calls q).read n hn)
  judged := by
    intro n hn hclaimed
    -- a new claim is to a lock that has no text, and one that was judged has
    rcases h.claimed hclaimed with hold | hunwritten
    · exact (hs.calls q).judged n hn hold
    · rw [(hs.calls q).read n (At.text_of_judged hn)] at hunwritten
      cases hunwritten

/-- What one process does keeps the invariant where it knows what it should, and the locks of
live owners are in place. -/
theorem Inv.moves (hs : Inv s) (h : Moves s s' p) (hp : Local s' p (s'.procs p))
    (hkept : PathLock.Kept s'.lockFile s'.Aside s'.Claimed) : Inv s' where
  calls := by
    intro q
    by_cases hq : q = p
    · exact hq ▸ hp
    · rw [h.others q hq]
      exact h.local hs hq
  known := by
    intro n hn
    rcases h.own n hn with hold | howner
    · obtain ⟨q, hq⟩ := hs.known n hold
      exact ⟨q, h.owners n q hq⟩
    · exact ⟨p, h.owners n p howner⟩
  kept := hkept

theorem Inv.claimed_iff (hs : Inv s) {n : Nat} : s.live n = true ↔ s.Claimed n := by
  constructor
  · intro h
    obtain ⟨q, -, hq⟩ := List.any_eq_true.mp h
    exact ⟨q, of_decide_eq_true hq⟩
  · rintro ⟨q, hq⟩
    have howner := (hs.calls q).owner n (At.token_of_claims hq)
    exact List.any_eq_true.mpr ⟨q, List.mem_of_getElem? howner, decide_eq_true hq⟩

theorem Inv.unclaimed (hs : Inv s) {n : Nat} (h : s.live n = false) : ¬s.Claimed n := by
  intro hclaimed
  rw [hs.claimed_iff.mpr hclaimed] at h
  cases h

theorem Inv.asides (hs : Inv s) {ok : Nat → Bool} (h : s.asides ok = true) {n : Nat}
    (hn : s.Aside n) : ok n = true := by
  obtain ⟨q, hq⟩ := hn
  obtain ⟨t, ht⟩ := At.token_of_aside hq
  have howner := (hs.calls q).owner t ht
  have hall := List.all_eq_true.mp h q (List.mem_of_getElem? howner)
  rw [hq] at hall
  exact hall

/-- Times are nothing to it. -/
theorem Inv.retimed (hs : Inv s) (mtime : Nat → Nat) (now : Nat) :
    Inv { s with mtime, now } where
  calls := fun p => ⟨(hs.calls p).owner, (hs.calls p).fresh, (hs.calls p).signed,
    (hs.calls p).read, (hs.calls p).judged⟩
  known := hs.known
  kept := hs.kept

/-! ## Steps that leave the texts alone -/

section Put

variable [DecidableEq P]

@[simp] theorem State.put_self : (s.put p a).procs p = a := Function.update_self ..

theorem State.put_of_ne (h : q ≠ p) : (s.put p a).procs q = s.procs q := Function.update_of_ne h ..

variable {lockFile : Option Nat} {mtime : Nat → Nat}

theorem claimed_put (hclaims : ∀ n, a.claims = some n → (s.procs p).claims = some n) {n : Nat}
    (hn : (s.put p a).Claimed n) : s.Claimed n := by
  obtain ⟨q, hq⟩ := hn
  by_cases heq : q = p
  · subst heq
    rw [put_self] at hq
    exact ⟨q, hclaims n hq⟩
  · rw [put_of_ne heq] at hq
    exact ⟨q, hq⟩

theorem aside_put (haside : ∀ n, (s.procs p).aside = some n → a.aside = some n ∨ ¬s.Claimed n)
    {n : Nat} (hn : s.Aside n) (hclaimed : s.Claimed n) : (s.put p a).Aside n := by
  obtain ⟨q, hq⟩ := hn
  by_cases heq : q = p
  · subst heq
    refine ⟨q, ?_⟩
    rw [put_self]
    exact (haside n hq).resolve_right fun h => h hclaimed
  · refine ⟨q, ?_⟩
    rw [put_of_ne heq]
    exact hq

theorem Inv.put (hs : Inv s) (hclaims : ∀ n, a.claims = some n → (s.procs p).claims = some n)
    (hlocal : Local s p a)
    (hkept : PathLock.Kept lockFile ({ s with lockFile, mtime }.put p a).Aside s.Claimed) :
    Inv ({ s with lockFile, mtime }.put p a) := by
  refine hs.moves (p := p) ⟨fun q hq => put_of_ne hq, fun _ _ h => h, fun _ h => h,
    fun _ h => .inl h, fun n hn => .inl (hclaims n (by rw [put_self] at hn; exact hn))⟩ ?_
    (hkept.mono (fun _ => claimed_put hclaims) fun _ _ h => h)
  rw [put_self]
  exact ⟨hlocal.owner, hlocal.fresh, hlocal.signed, hlocal.read,
    fun n hn h => hlocal.judged n hn (claimed_put hclaims h)⟩

/-- A step that leaves the path alone. -/
theorem Inv.quiet (hs : Inv s) (hclaims : ∀ n, a.claims = some n → (s.procs p).claims = some n)
    (haside : ∀ n, (s.procs p).aside = some n → a.aside = some n ∨ ¬s.Claimed n)
    (hlocal : Local s p a) : Inv (s.put p a) :=
  hs.put hclaims hlocal (hs.kept.mono (fun _ h => h) fun _ hn h => aside_put haside h hn)

end Put

/-! ## The steps of `lockLibrary` -/

section Steps

variable [DecidableEq P] {t : Nat} {text : Text}

theorem Inv.create (hs : Inv s) (hp : s.procs p = .trying t) (hfree : s.lockFile = none)
    (haside : ∀ n, s.Aside n → ¬s.Claimed n) (mtime : Nat → Nat) :
    Inv ({ s with lockFile := some t, mtime }.put p (.created t)) := by
  have hlocal := hs.calls p
  rw [hp] at hlocal
  have hmoves : Moves s ({ s with lockFile := some t, mtime }.put p (.created t)) p := by
    refine ⟨fun q hq => put_of_ne hq, fun _ _ h => h, fun _ h => h, fun _ h => .inl h, ?_⟩
    intro n hn
    rw [put_self] at hn
    obtain rfl : t = n := Option.some.inj hn
    exact .inr (hlocal.fresh t rfl)
  refine hs.moves hmoves ?_ ?_
  · rw [put_self]
    exact .owned (hlocal.owner t rfl) rfl rfl rfl fun _ h => by cases h
  · have hkept := hs.kept
    rw [hfree] at hkept
    -- `p` claims what it has created; the other claims were there before
    refine hkept.take haside t ?_
    rintro n ⟨q, hq⟩
    by_cases heq : q = p
    · subst heq
      rw [put_self] at hq
      exact .inr (Option.some.inj hq).symm
    · rw [put_of_ne heq] at hq
      exact .inl ⟨q, hq⟩

theorem Inv.write (hs : Inv s) (hp : s.procs p = .created t) (mtime : Nat → Nat) :
    Inv ({ s with written := Function.update s.written t true, mtime }.put p (.holding t)) := by
  have howner : s.owners[t]? = some p := (hs.calls p).owner t (by rw [hp]; rfl)
  have hmoves : Moves s
      ({ s with written := Function.update s.written t true, mtime }.put p (.holding t)) p := by
    refine ⟨fun q hq => put_of_ne hq, fun _ _ h => h, ?_, ?_, ?_⟩
    · intro n hn
      by_cases heq : n = t
      · rw [heq]
        exact Function.update_self ..
      · exact (Function.update_of_ne heq ..).trans hn
    · intro n hn
      by_cases heq : n = t
      · exact .inr (heq ▸ howner)
      · exact .inl ((Function.update_of_ne heq ..).symm.trans hn)
    · intro n hn
      rw [put_self] at hn
      rw [hp]
      exact .inl hn
  have hclaims : ∀ n, (At.holding t).claims = some n → (s.procs p).claims = some n := by
    intro n hn
    rw [hp]
    exact hn
  have haside : ∀ n, (s.procs p).aside = some n →
      (At.holding t).aside = some n ∨ ¬s.Claimed n := by
    intro n hn
    rw [hp] at hn
    cases hn
  refine hs.moves hmoves ?_ ?_
  · rw [put_self]
    refine .owned howner rfl rfl rfl ?_
    intro u hu
    obtain rfl : t = u := At.holding.inj hu
    exact Function.update_self ..
  · exact hs.kept.mono (fun n hn => claimed_put hclaims hn) fun n hn h =>
      aside_put haside h (claimed_put hclaims hn)

/-- A call that has nothing aside goes on waiting. -/
theorem Inv.wait (hs : Inv s) (hp : (s.procs p).waits = some t) (ha : a.waits = some t)
    (haside : (s.procs p).aside = none)
    (hread : ∀ n, a.text = some (.lock n) → s.written n = true)
    (hjudged : ∀ n, a.judged = some (.lock n) → ¬s.Claimed n) : Inv (s.put p a) := by
  refine hs.quiet ?_ ?_ ((hs.calls p).wait hp ha hread hjudged)
  · intro n hn
    rw [At.claims_of_waits ha] at hn
    cases hn
  · intro n hn
    rw [haside] at hn
    cases hn

/-- A process leaves `lockLibrary`, or goes on to give the library back. -/
theorem Inv.leave (hs : Inv s) (hlocal : Local s p a) (hclaims : a.claims = none)
    (hlost : ∀ n, (s.procs p).aside = some n → ¬s.Claimed n) : Inv (s.put p a) := by
  refine hs.quiet ?_ (fun n hn => .inr (hlost n hn)) hlocal
  intro n hn
  rw [hclaims] at hn
  cases hn

theorem Inv.remove (hs : Inv s) (hp : s.procs p = .removing t)
    (hlive : ∀ n, s.lockFile = some n → ¬s.Claimed n) :
    Inv ({ s with lockFile := none }.put p .idle) := by
  refine hs.put (fun _ hn => by cases hn) .idle ?_
  cases hlock : s.lockFile with
  | none =>
    have hkept := hs.kept
    rw [hlock] at hkept
    refine hkept.mono (fun _ h => h) fun n hn h => aside_put ?_ h hn
    intro m hm
    rw [hp] at hm
    cases hm
  | some lock =>
    have hkept := hs.kept
    rw [hlock] at hkept
    exact hkept.vacate (hlive lock hlock)

/-- What is there and stale is nobody's, and so is the lock that was read before: where a live
owner's lock is not aside, it is the one that is there. -/
theorem Inv.stat (hs : Inv s) (hp : s.procs p = .statting t text) {lock : Nat} {silent : Bool}
    (hlock : s.lockFile = some lock) (hsilent : silent = true → ¬s.Claimed lock) :
    Inv (s.put p (.checking t text silent)) := by
  have hlocal := hs.calls p
  rw [hp] at hlocal
  refine hs.wait (by rw [hp]; rfl) rfl (by rw [hp]; rfl) hlocal.read ?_
  intro n hn hclaimed
  cases silent with
  | false => cases hn
  | true =>
    -- a live owner's lock is the one that is there, and it was seen stale
    obtain rfl := hs.kept.eq_of_place hlock hclaimed
    exact hsilent rfl hclaimed

theorem Inv.move (hs : Inv s) (hp : s.procs p = .moving t text) {lock : Nat}
    (hlock : s.lockFile = some lock) :
    Inv ({ s with lockFile := none }.put p (.moved t text lock)) := by
  have hlocal := hs.calls p
  rw [hp] at hlocal
  refine hs.put (fun _ hn => by cases hn) (hlocal.wait rfl rfl hlocal.read hlocal.judged) ?_
  have hkept := hs.kept
  rw [hlock] at hkept
  exact hkept.displace ⟨p, by rw [put_self]; rfl⟩

/-- A live owner's lock that was moved aside is put back. -/
theorem Inv.reread (hs : Inv s) {lock : Nat} (hp : s.procs p = .moved t text lock)
    (hempty : text = .empty → s.written lock = true ∨ ¬s.Claimed lock) :
    Inv (s.put p (if s.text lock = text then .clearing t else .linking t lock)) := by
  have hlocal := hs.calls p
  rw [hp] at hlocal
  split
  · rename_i htext
    refine hs.leave (hlocal.wait rfl rfl (fun _ h => by cases h) fun _ h => by cases h) rfl ?_
    intro n hn hclaimed
    rw [hp] at hn
    obtain rfl : lock = n := Option.some.inj hn
    by_cases hwritten : s.written lock = true
    · -- the text that was judged is this lock's
      rw [State.text, if_pos hwritten] at htext
      exact hlocal.judged lock (htext ▸ rfl) hclaimed
    · rw [State.text, if_neg hwritten] at htext
      exact (hempty htext.symm).elim hwritten fun h => h hclaimed
  · refine hs.quiet (fun _ hn => by cases hn) ?_
      (hlocal.wait rfl rfl (fun _ h => by cases h) fun _ h => by cases h)
    intro n hn
    rw [hp] at hn
    exact .inl hn

theorem Inv.link (hs : Inv s) {lock : Nat} (hp : s.procs p = .linking t lock)
    (haside : s.lockFile = none → ∀ n, s.Aside n → n ≠ lock → ¬s.Claimed n) :
    Inv ({ s with lockFile := s.lockFile <|> some lock }.put p (.clearing t)) := by
  have hlocal := hs.calls p
  rw [hp] at hlocal
  refine hs.put (fun _ hn => by cases hn)
    (hlocal.wait rfl rfl (fun _ h => by cases h) fun _ h => by cases h) ?_
  have hkept := hs.kept
  -- where a file is, the link fails and the path is as it was
  cases hplace : s.lockFile with
  | none =>
    rw [hplace] at hkept
    exact hkept.restore lock (haside hplace)
  | some m =>
    rw [hplace] at hkept
    exact hkept.at_place

theorem Inv.call (hs : Inv s) (hp : s.procs p = .idle) :
    Inv ({ s with owners := s.owners ++ [p] }.put p (.trying s.owners.length)) := by
  -- nobody has had this token
  have hnew : s.written s.owners.length = false := by
    rw [← Bool.not_eq_true]
    intro hwritten
    obtain ⟨q, hq⟩ := hs.known _ hwritten
    exact absurd (List.getElem?_eq_some_iff.mp hq).1 (Nat.lt_irrefl _)
  have hmoves : Moves s
      ({ s with owners := s.owners ++ [p] }.put p (.trying s.owners.length)) p := by
    refine ⟨fun q hq => put_of_ne hq, ?_, fun _ h => h, fun _ h => .inl h, ?_⟩
    · intro u q hu
      exact Log.getElem?_old hu
    · intro n hn
      rw [put_self] at hn
      cases hn
  refine hs.moves hmoves ?_ ?_
  · rw [put_self]
    constructor
    case owner =>
      intro u hu
      obtain rfl : s.owners.length = u := Option.some.inj hu
      exact List.getElem?_concat_length ..
    case fresh =>
      intro u hu
      obtain rfl : s.owners.length = u := Option.some.inj hu
      exact hnew
    all_goals
      intro _ h
      cases h
  · have hclaims : ∀ n, (At.trying s.owners.length).claims = some n →
        (s.procs p).claims = some n := fun n hn => by cases hn
    refine hs.kept.mono (fun n hn => claimed_put hclaims hn) fun n hn h => ?_
    refine aside_put ?_ h (claimed_put hclaims hn)
    intro m hm
    rw [hp] at hm
    cases hm

theorem Inv.act {staleMs : P → Nat} (hs : Inv s)
    (hrefreshed : refreshed staleMs s (.act p) = true) (hcareful : careful s (.act p) = true) :
    Inv (act staleMs p s) := by
  have hlocal := hs.calls p
  have hwait : ∀ {t : Nat} {a : At}, (s.procs p).waits = some t → (s.procs p).aside = none →
      a.waits = some t → a.text = none → Inv (s.put p a) := by
    intro t a hp haside ha htext
    refine hs.wait hp ha haside ?_ ?_
    · intro n hn
      rw [htext] at hn
      cases hn
    · intro n hn
      rw [At.text_of_judged hn] at htext
      cases htext
  simp only [LibraryLock.act]
  cases hp : s.procs p with
  | idle => exact hs
  | dead => exact hs
  | holding t => exact hs
  | checking t text silent => exact hs
  | created t => exact hs.write hp _
  | moving t text =>
    cases hlock : s.lockFile with
    | none => exact hwait (by rw [hp]; rfl) (by rw [hp]; rfl) rfl rfl
    | some lock => exact hs.move hp hlock
  | moved t text lock =>
    refine hs.reread hp ?_
    rintro rfl
    simp only [careful, hp, Bool.or_eq_true, Bool.not_eq_true'] at hcareful
    exact hcareful.imp_right hs.unclaimed
  | linking t lock =>
    refine hs.link hp ?_
    intro hfree n hn hne
    simp only [careful, hp, hfree] at hcareful
    apply hs.unclaimed
    simpa [hne] using hs.asides hcareful hn
  | trying t =>
    cases hlock : s.lockFile with
    | none =>
      refine hs.create hp hlock ?_ _
      intro n hn
      simp only [careful, hp, hlock] at hcareful
      apply hs.unclaimed
      simpa using hs.asides hcareful hn
    | some lock => exact hwait (by rw [hp]; rfl) (by rw [hp]; rfl) rfl rfl
  | reading t =>
    refine hs.wait (by rw [hp]; rfl) rfl (by rw [hp]; rfl) ?_ fun _ h => by cases h
    intro n hn
    exact written_of_read (Option.some.inj hn)
  | statting t text =>
    cases hlock : s.lockFile with
    | none => exact hwait (by rw [hp]; rfl) (by rw [hp]; rfl) rfl rfl
    | some lock =>
      refine hs.stat hp hlock ?_
      intro hsilent
      have hstale := of_decide_eq_true hsilent
      simp only [refreshed, hp, hlock, Bool.or_eq_true, Bool.not_eq_true', decide_eq_true_eq]
        at hrefreshed
      -- a live owner would have refreshed it
      exact hs.unclaimed (hrefreshed.resolve_right (by omega))
  | releasing t =>
    rw [hp] at hlocal
    refine hs.leave ?_ ?_ ?_
    · split
      · exact .owned (hlocal.owner t rfl) rfl rfl rfl fun _ h => by cases h
      · exact .idle
    · split <;> rfl
    · intro n hn
      rw [hp] at hn
      cases hn
  | removing t =>
    refine hs.remove hp ?_
    intro n hn
    simp only [careful, hp, hn] at hcareful
    exact hs.unclaimed (by simpa using hcareful)
  | clearing t => exact hwait (by rw [hp]; rfl) (by rw [hp]; rfl) rfl rfl
  | sleeping t => exact hwait (by rw [hp]; rfl) (by rw [hp]; rfl) rfl rfl

/-- A lock is judged a crashed install's when its owner is gone. -/
theorem Inv.judge {staleMs : P → Nat} (hs : Inv s) {silent running : Bool}
    (hp : s.procs p = .checking t text silent)
    (hrefreshed : refreshed staleMs s (.judge p running) = true) :
    Inv (s.put p (if silent || text.gone running then .moving t text else .sleeping t)) := by
  have hlocal := hs.calls p
  rw [hp] at hlocal
  have hwaits : (s.procs p).waits = some t := by rw [hp]; rfl
  have haside : (s.procs p).aside = none := by rw [hp]; rfl
  split
  · rename_i hmove
    refine hs.wait hwaits rfl haside hlocal.read ?_
    intro n hn hclaimed
    obtain rfl : text = .lock n := Option.some.inj hn
    cases silent with
    -- it was seen stale before
    | true => exact hlocal.judged n rfl hclaimed
    | false =>
      obtain rfl : running = false := by simpa [Text.gone] using hmove
      obtain ⟨q, hq⟩ := hclaimed
      have howner := (hs.calls q).owner n (At.token_of_claims hq)
      -- a process that runs is not reported gone, so its owner claims nothing
      have hdead : s.procs q = .dead := by simpa [refreshed, hp, howner] using hrefreshed
      rw [hdead] at hq
      cases hq
  · exact hs.wait hwaits rfl haside (fun _ h => by cases h) fun _ h => by cases h

/-- **One step.** -/
theorem Inv.step {staleMs : P → Nat} (hs : Inv s) {e : Event P}
    (hrefreshed : refreshed staleMs s e = true) (hcareful : careful s e = true) :
    Inv (step staleMs s e) := by
  cases e with
  | act p => exact hs.act hrefreshed hcareful
  | tick ms => exact hs.retimed ..
  | call p =>
    simp only [LibraryLock.step]
    split
    · rename_i hp
      exact hs.call hp
    · exact hs
  | judge p running =>
    simp only [LibraryLock.step]
    split
    · rename_i hp
      exact hs.judge hp hrefreshed
    · exact hs
  | writeFails p =>
    simp only [LibraryLock.step]
    split
    · rename_i hp
      exact hs.leave .idle rfl fun n hn => by rw [hp] at hn; cases hn
    · exact hs
  | release p =>
    simp only [LibraryLock.step]
    split
    · rename_i t hp
      have howner : s.owners[t]? = some p := (hs.calls p).owner t (by rw [hp]; rfl)
      exact hs.leave (.owned howner rfl rfl rfl fun _ h => by cases h) rfl
        fun n hn => by rw [hp] at hn; cases hn
    · exact hs
  | beat p =>
    simp only [LibraryLock.step]
    split
    · exact hs.retimed ..
    · exact hs
  | crash p =>
    refine hs.leave .dead rfl ?_
    intro n hn
    simp only [careful, hn, Option.all_some, Bool.not_eq_true'] at hcareful
    exact hs.unclaimed hcareful

end Steps

/-! ## Mutual exclusion -/

theorem Inv.exclusive (hs : Inv s) : Exclusive s where
  one := by
    intro p q m n hp hq
    have hm := (hs.calls p).owner m (by rw [hp]; rfl)
    have hn := (hs.calls q).owner n (by rw [hq]; rfl)
    obtain rfl := hs.kept.one m n ⟨p, by rw [hp]; rfl⟩ ⟨q, by rw [hq]; rfl⟩
    exact Option.some.inj (hm.symm.trans hn)
  kept := by
    intro p n hp
    have hclaimed : s.Claimed n := ⟨p, by rw [hp]; rfl⟩
    have hwritten := (hs.calls p).signed n hp
    -- its lock is in place, or with a process that has moved it and is going to put it back
    refine (hs.kept.kept n hclaimed).imp_right fun ⟨hfree, q, hq⟩ => ⟨hfree, q, ?_⟩
    cases hat : s.procs q with
    | linking t lock =>
      rw [hat] at hq
      obtain rfl : lock = n := Option.some.inj hq
      exact .inl ⟨t, hat⟩
    | moved t text lock =>
      rw [hat] at hq
      obtain rfl : lock = n := Option.some.inj hq
      refine .inr ⟨t, text, hat, ?_⟩
      rintro rfl
      rw [State.text, if_pos hwritten] at hat
      exact (hs.calls q).judged lock (by rw [hat]; rfl) hclaimed
    | _ =>
      rw [hat] at hq
      cases hq

theorem inv_init : Inv ({} : State P) where
  calls := fun p => .idle
  known := fun n hn => by cases hn
  kept := ⟨fun m n ⟨p, hp⟩ => (by cases hp), fun n ⟨p, hp⟩ => (by cases hp)⟩

/-- **One holder of the library**, in every run in which no live owner's lock is aside at the wrong
moment. -/
theorem library_exclusive [DecidableEq P] (staleMs : P → Nat) :
    ∀ s, ((system staleMs).when fun s e => careful s e = true).Reachable s → Exclusive s := by
  intro s hs
  apply Inv.exclusive
  exact System.invariant_ofFn inv_init (fun _ _ hs h => hs.step h.1 h.2)
    (System.reachable_when_when.mp hs)

end

/-- A process installs and crashes; two more find its lock, and one takes it over. -/
def takeover : List (Event (Fin 4)) :=
  [.call 0, .act 0, .act 0, .crash 0,
   .call 1, .act 1, .act 1, .act 1, .judge 1 false,
   .call 2, .act 2, .act 2, .act 2, .judge 2 false,
   .act 2, .act 2, .act 2, .act 2, .act 2]

theorem library_exclusive_takeover :
    ∃ s : State (Fin 4), Exclusive s ∧ s.procs 2 = .holding 2 ∧ s.lockFile = some 2 := by
  refine ⟨takeover.foldl (step fun _ => 120000) {}, ?_, by decide, by decide⟩
  have hsteps : System.allSteps (step fun _ => 120000)
      (fun s e => refreshed (fun _ => 120000) s e && careful s e) {} takeover = true := by decide
  apply library_exclusive fun _ => 120000
  apply System.reachable_when_when.mpr
  simpa using System.reachable_of_allSteps hsteps

/-- The other one of the two still takes what it has read for what is there. -/
def takenTwice : List (Event (Fin 4)) := takeover ++ [.act 1, .call 3, .act 3, .act 3]

/-- It moves the lock of the one that took over aside, and a fourth process finds the path free. -/
theorem library_not_exclusive : ∃ s : State (Fin 4), (system fun _ => 120000).Reachable s ∧
    s.procs 2 = .holding 2 ∧ s.procs 3 = .holding 3 := by
  refine ⟨takenTwice.foldl (step fun _ => 120000) {}, ?_, by decide, by decide⟩
  apply System.reachable_of_allSteps
  decide

end Jovian.LibraryLock
