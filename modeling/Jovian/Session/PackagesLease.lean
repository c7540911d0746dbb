import Jovian.Lib.InsertionMap
import Jovian.Lib.Transition

/-!
# PackagesLease — the packages session an install is given, and gives back

`packagesSession` looks for an entry under its key (the R and the libraries), or makes one and starts
a session for it; it waits for the session, and counts the install in the entry's `inUse` until
`released`. An entry that is used no more has its session stopped, some minutes later.

`released` looks for the entry under the key again. It may be another one by then: a session that
died has its entry replaced as soon as the next install wants one.

* **`leased_iff`** — in every run, every `inUse` is the number of installs that hold the session, no
  session that is held is stopped, and no install gives back another's session, exactly when every
  `released` finds the entry of the session that the install was given.
-/

namespace Jovian.PackagesLease

open Transition (System)

/-! ## Entries and installs -/

/-- The promise of an entry's session. -/
inductive Outcome where
  | pending
  | created
  | failed
deriving DecidableEq

/-- A value of `packagesSessions`, with what becomes of its session. -/
structure Entry (K : Type) where
  key : K
  session : Outcome := .pending
  /-- `session.isStopped`: it was stopped, or its kernel ended. -/
  isStopped : Bool := false
  inUse : Nat := 0
  /-- Whether the timer runs. -/
  idle : Bool := false
  /-- Whether the timer has had it stopped. -/
  stop : Bool := false
deriving DecidableEq

/-- Where an install is, and the entry of its session. -/
inductive Phase where
  | waiting (entry : Nat)
  | holding (entry : Nat)
  /-- It has released the session, or was given none. -/
  | over
deriving DecidableEq

structure Install (K : Type) where
  key : K
  phase : Phase

structure State (K : Type) where
  packagesSessions : InsertionMap K Nat := []
  /-- All that were made. -/
  entries : List (Entry K) := []
  installs : List (Install K) := []

inductive Event (K : Type) where
  /-- An install calls `packagesSession`. -/
  | call (key : K)
  /-- `await current.session` returns. -/
  | go (install : Nat)
  | released (install : Nat)
  /-- The idle timer of an entry. -/
  | timer (entry : Nat)
  | created (entry : Nat)
  /-- The session does not start. -/
  | fails (entry : Nat)
  | dies (entry : Nat)

variable {K : Type} [DecidableEq K]

namespace State

variable (s : State K)

def modify (entry : Nat) (f : Entry K → Entry K) : State K :=
  { s with entries := s.entries.modify entry f }

def move (install : Nat) (i : Install K) (phase : Phase) : State K :=
  { s with installs := s.installs.set install { i with phase } }

/-- `packagesSessions.delete(key)` -/
def delete (key : K) : State K :=
  { s with packagesSessions := s.packagesSessions.delete key }

/-- The entry of a key, which is made where there is none. -/
def entryFor (key : K) : Nat × State K :=
  match s.packagesSessions.get key with
  | some entry => (entry, s)
  | none =>
    (s.entries.length,
      { s with
        entries := s.entries ++ [{ key }]
        packagesSessions := s.packagesSessions.set key s.entries.length })

/-- How many installs hold an entry's session. -/
def holders (entry : Nat) : Nat := s.installs.countP (·.phase = .holding entry)

/-- An install is to go on: timers run after it. -/
def ready : Bool :=
  s.installs.any fun i =>
    match i.phase with
    | .waiting entry => s.entries[entry]?.any (·.session ≠ .pending)
    | _ => false

end State

/-- After `await current.session`. -/
def goOn (s : State K) (install : Nat) (i : Install K) (entry : Nat) (current : Entry K) : State K :=
  match current.session with
  | .pending => s
  | .failed => s.move install i .over
  | .created =>
    if current.isStopped then
      -- whatever is under the key by now
      let next := (s.delete i.key).entryFor i.key
      next.2.move install i (.waiting next.1)
    else
      (s.modify entry fun x => { x with idle := false, inUse := x.inUse + 1 }).move install i
        (.holding entry)

def released (s : State K) (key : K) : State K :=
  match s.packagesSessions.get key with
  | none => s
  | some current => s.modify current fun x =>
    { x with inUse := x.inUse - 1, idle := x.idle || decide (x.inUse ≤ 1) }

/-- The callback of the idle timer. -/
def timeout (s : State K) (entry : Nat) (current : Entry K) : State K :=
  if 0 < current.inUse then s.modify entry fun x => { x with idle := false }
  else
    let s := if s.packagesSessions.get current.key = some entry then s.delete current.key else s
    s.modify entry fun x => { x with idle := false, stop := true }

def step (s : State K) : Event K → State K
  | .call key =>
    let next := s.entryFor key
    { next.2 with installs := next.2.installs ++ [{ key, phase := .waiting next.1 }] }
  | .go install =>
    match s.installs[install]? with
    | some i =>
      match i.phase with
      | .waiting entry =>
        match s.entries[entry]? with
        | some current => goOn s install i entry current
        | none => s
      | _ => s
    | none => s
  | .released install =>
    match s.installs[install]? with
    | some i =>
      match i.phase with
      | .holding _ => (released s i.key).move install i .over
      | _ => s
    | none => s
  | .timer entry =>
    match s.entries[entry]? with
    | some current => if current.idle && !s.ready then timeout s entry current else s
    | none => s
  | .created entry => s.modify entry fun x =>
    { x with session := if x.session = .pending then .created else x.session }
  | .fails entry =>
    match s.entries[entry]? with
    | some current =>
      -- `session.catch(() => this.packagesSessions.delete(key))`
      if current.session = .pending then
        (s.delete current.key).modify entry fun x => { x with session := .failed }
      else s
    | none => s
  | .dies entry => s.modify entry fun x =>
    { x with isStopped := x.isStopped || decide (x.session = .created) }

def run (es : List (Event K)) : State K := es.foldl step {}

/-! ## The property -/

structure Leased (s : State K) : Prop where
  inUse : ∀ entry x, s.entries[entry]? = some x → x.inUse = s.holders entry
  /-- What the timer has stopped is not held. -/
  stop : ∀ entry x, s.entries[entry]? = some x → x.stop = true → s.holders entry = 0

/-- The entry whose session an install holds. -/
def State.given (s : State K) (install : Nat) : Option (K × Nat) :=
  match s.installs[install]? with
  | some ⟨key, .holding entry⟩ => some (key, entry)
  | _ => none

/-- A release leaves the count of every other session as it is. -/
def ReleasesOwn (s : State K) (e : Event K) : Prop :=
  ∀ install key entry, e = .released install → s.given install = some (key, entry) →
    ∀ other, other ≠ entry →
      (step s e).entries[other]?.map Entry.inUse = s.entries[other]?.map Entry.inUse

/-- The entry under the key is that of the session which the install was given. -/
def finds (s : State K) : Event K → Prop
  | .released install => ∀ key entry, s.given install = some (key, entry) →
    s.packagesSessions.get key = some entry
  | _ => True

/-- The lease is kept all along. -/
def Kept (es : List (Event K)) : Prop :=
  (∀ pre, pre <+: es → Leased (run pre)) ∧ ∀ pre e, pre ++ [e] <+: es → ReleasesOwn (run pre) e

/-! ## What one event keeps -/

/-- An install waits for a session that is not stopped when idle, or holds one that was created. -/
def Stays (entries : List (Entry K)) (i : Install K) : Prop :=
  match i.phase with
  | .waiting entry => ∃ x, entries[entry]? = some x ∧ x.stop = false
  | .holding entry => ∃ x, entries[entry]? = some x ∧ x.session = .created
  | .over => True

structure Inv (s : State K) : Prop extends Leased s where
  known : ∀ key entry, s.packagesSessions.get key = some entry →
    ∃ x, s.entries[entry]? = some x ∧ x.key = key ∧ x.stop = false
  installs : ∀ i ∈ s.installs, Stays s.entries i
  idle : ∀ (entry : Nat) x, s.entries[entry]? = some x → x.idle = true → x.session = .created

variable {s : State K} {entry install : Nat} {x : Entry K} {i : Install K}

/-- What an event other than the timer may make of an entry. -/
structure Moves (x y : Entry K) : Prop where
  key : y.key = x.key
  stop : y.stop = x.stop
  session : x.session = .created → y.session = .created
  idle : y.idle = true → y.session = .created

theorem getElem?_modify_of {α : Type} {l : List α} {n m : Nat} {f : α → α} {y : α}
    (h : (l.modify n f)[m]? = some y) :
    ∃ x, l[m]? = some x ∧ y = if n = m then f x else x := by
  rw [List.getElem?_modify] at h
  cases hx : l[m]? with
  | none => simp [hx] at h
  | some x =>
    rw [hx] at h
    exact ⟨x, rfl, (Option.some.inj h).symm⟩

/-- **An entry changes, and so do the installs**; the counts fit. -/
theorem Inv.update (hs : Inv s) {f : Entry K → Entry K} {installs : List (Install K)}
    (hf : ∀ x, s.entries[entry]? = some x → Moves x (f x))
    (hinUse : ∀ other x, s.entries[other]? = some x → (if entry = other then f x else x).inUse =
      installs.countP (·.phase = .holding other))
    (hstop : ∀ other x, s.entries[other]? = some x → x.stop = true →
      installs.countP (·.phase = .holding other) = 0)
    (hinstalls : ∀ i ∈ installs, Stays s.entries i) :
    Inv { s with entries := s.entries.modify entry f, installs := installs } := by
  have hmoves : ∀ other x, s.entries[other]? = some x → Moves x (if entry = other then f x else x) := by
    intro other x hx
    by_cases h : entry = other
    · obtain rfl := h
      rw [if_pos rfl]
      exact hf x hx
    · rw [if_neg h]
      exact ⟨rfl, rfl, id, hs.idle other x hx⟩
  have hget : ∀ other x, s.entries[other]? = some x →
      (s.entries.modify entry f)[other]? = some (if entry = other then f x else x) := by
    intro other x hx
    rw [List.getElem?_modify, hx]
    rfl
  refine ⟨⟨fun other y hy => ?_, fun other y hy hystop => ?_⟩, fun key other hother => ?_,
    fun i hi => ?_, fun other y hy hidle => ?_⟩
  · obtain ⟨x, hx, rfl⟩ := getElem?_modify_of hy
    exact hinUse other x hx
  · obtain ⟨x, hx, rfl⟩ := getElem?_modify_of hy
    exact hstop other x hx ((hmoves other x hx).stop.symm.trans hystop)
  · obtain ⟨x, hx, hkey, hxstop⟩ := hs.known key other hother
    have hmove := hmoves other x hx
    exact ⟨_, hget other x hx, hmove.key.trans hkey, hmove.stop.trans hxstop⟩
  · have hstays := hinstalls i hi
    unfold Stays at hstays ⊢
    split at hstays
    · obtain ⟨x, hx, hxstop⟩ := hstays
      exact ⟨_, hget _ x hx, (hmoves _ x hx).stop.trans hxstop⟩
    · obtain ⟨x, hx, hsession⟩ := hstays
      exact ⟨_, hget _ x hx, (hmoves _ x hx).session hsession⟩
    · trivial
  · obtain ⟨x, hx, rfl⟩ := getElem?_modify_of hy
    exact (hmoves other x hx).idle hidle

/-- An entry changes, and its count does not. -/
theorem Inv.modify (hs : Inv s) {f : Entry K → Entry K}
    (hf : ∀ x, s.entries[entry]? = some x → Moves x (f x) ∧ (f x).inUse = x.inUse) :
    Inv (s.modify entry f) := by
  refine hs.update (fun x hx => (hf x hx).1) (fun other x hx => ?_) hs.stop hs.installs
  have hcount := hs.inUse other x hx
  by_cases h : entry = other
  · obtain rfl := h
    rw [if_pos rfl, (hf x hx).2]
    exact hcount
  · rw [if_neg h]
    exact hcount

theorem get_of_get_delete {m : InsertionMap K Nat} {key key' : K}
    (h : (m.delete key).get key' = some entry) : key' ≠ key ∧ m.get key' = some entry := by
  have hne : key' ≠ key := (InsertionMap.mem_delete.mp (InsertionMap.mem_of_get h)).2
  rw [InsertionMap.get_delete_ne m hne] at h
  exact ⟨hne, h⟩

theorem Inv.delete (hs : Inv s) (key : K) : Inv (s.delete key) :=
  { hs with known := fun key' entry h => hs.known key' entry (get_of_get_delete h).2 }

/-- The entry of a key is not one that is stopped, and an install may wait for it. -/
theorem Inv.entryFor (hs : Inv s) (key : K) :
    Inv (s.entryFor key).2 ∧ (s.entryFor key).2.installs = s.installs ∧
      ∃ x, (s.entryFor key).2.entries[(s.entryFor key).1]? = some x ∧ x.stop = false := by
  unfold State.entryFor
  cases hget : s.packagesSessions.get key with
  | some entry =>
    obtain ⟨x, hx, -, hstop⟩ := hs.known key entry hget
    exact ⟨hs, rfl, x, hx, hstop⟩
  | none =>
    have hold : ∀ (other : Nat) x, s.entries[other]? = some x →
        (s.entries ++ [({ key } : Entry K)])[other]? = some x := by
      intro other x hx
      rw [List.getElem?_append_left (List.getElem?_eq_some_iff.mp hx).1, hx]
    have hnew : (s.entries ++ [({ key } : Entry K)])[s.entries.length]? = some { key } :=
      List.getElem?_concat_length
    have hsplit : ∀ (other : Nat) x, (s.entries ++ [({ key } : Entry K)])[other]? = some x →
        s.entries[other]? = some x ∨ other = s.entries.length ∧ x = { key } := by
      intro other x hx
      rcases Nat.lt_trichotomy other s.entries.length with hlt | rfl | hgt
      · exact .inl ((List.getElem?_append_left hlt).symm.trans hx)
      · exact .inr ⟨rfl, (Option.some.inj (hnew.symm.trans hx)).symm⟩
      · rw [List.getElem?_eq_none (by rw [List.length_append]; exact hgt)] at hx
        cases hx
    -- no install holds the new one
    have hnone : s.holders s.entries.length = 0 := by
      rw [State.holders, List.countP_eq_zero]
      intro i hi hphase
      have hstays := hs.installs i hi
      rw [Stays, of_decide_eq_true hphase] at hstays
      obtain ⟨x, hx, -⟩ := hstays
      rw [List.getElem?_eq_none (Nat.le_refl _)] at hx
      cases hx
    refine ⟨⟨⟨fun other x hx => ?_, fun other x hx hstop => ?_⟩, fun key' other hother => ?_,
      fun i hi => ?_, fun other x hx hidle => ?_⟩, rfl, _, hnew, rfl⟩
    · rcases hsplit other x hx with hx | ⟨rfl, rfl⟩
      · exact hs.inUse other x hx
      · exact hnone.symm
    · rcases hsplit other x hx with hx | ⟨rfl, rfl⟩
      · exact hs.stop other x hx hstop
      · exact hnone
    · by_cases hkey : key' = key
      · obtain rfl := hkey
        rw [InsertionMap.get_set_self] at hother
        obtain rfl := Option.some.inj hother
        exact ⟨_, hnew, rfl, rfl⟩
      · rw [InsertionMap.get_set_ne _ hkey] at hother
        obtain ⟨x, hx, hknown⟩ := hs.known key' other hother
        exact ⟨x, hold other x hx, hknown⟩
    · have hstays := hs.installs i hi
      unfold Stays at hstays ⊢
      split at hstays
      · obtain ⟨x, hx, hstop⟩ := hstays
        exact ⟨x, hold _ x hx, hstop⟩
      · obtain ⟨x, hx, hsession⟩ := hstays
        exact ⟨x, hold _ x hx, hsession⟩
      · trivial
    · rcases hsplit other x hx with hx | ⟨rfl, rfl⟩
      · exact hs.idle other x hx hidle
      · cases hidle

/-- The installs that hold sessions are as many. -/
theorem Inv.installs_of (hs : Inv s) {installs : List (Install K)}
    (hholders : ∀ entry, installs.countP (·.phase = .holding entry) = s.holders entry)
    (hinstalls : ∀ i ∈ installs, Stays s.entries i) : Inv { s with installs := installs } :=
  { known := hs.known
    idle := hs.idle
    installs := hinstalls
    inUse := fun entry x hx => (hs.inUse entry x hx).trans (hholders entry).symm
    stop := fun entry x hx hstop => (hholders entry).trans (hs.stop entry x hx hstop) }

omit [DecidableEq K] in
theorem holders_move (hi : s.installs[install]? = some i) (phase : Phase) (entry : Nat) :
    (s.move install i phase).holders entry + (if i.phase = .holding entry then 1 else 0) =
      s.holders entry + if phase = .holding entry then 1 else 0 := by
  obtain ⟨hlt, hget⟩ := List.getElem?_eq_some_iff.mp hi
  rw [State.move, State.holders, List.countP_set hlt, hget]
  by_cases h : i.phase = .holding entry
  · have hpos : 0 < s.holders entry := by
      rw [State.holders, List.countP_pos_iff]
      exact ⟨i, List.mem_of_getElem? hi, decide_eq_true h⟩
    simp only [h, decide_true, decide_eq_true_eq, if_true, State.holders] at hpos ⊢
    omega
  · simp [h, State.holders]

omit [DecidableEq K] in
theorem mem_move {j : Install K} {phase : Phase} (h : j ∈ (s.move install i phase).installs) :
    j ∈ s.installs ∨ j = { i with phase } :=
  List.mem_or_eq_of_mem_set h

theorem Inv.stays_move (hs : Inv s) {phase : Phase} (hphase : Stays s.entries { i with phase }) :
    ∀ j ∈ (s.move install i phase).installs, Stays s.entries j := by
  intro j hj
  rcases mem_move hj with hj | rfl
  · exact hs.installs j hj
  · exact hphase

/-- An install moves that holds nothing, then or before. -/
theorem Inv.move (hs : Inv s) (hi : s.installs[install]? = some i) {phase : Phase}
    (hbefore : ∀ entry, i.phase ≠ .holding entry) (hafter : ∀ entry, phase ≠ .holding entry)
    (hphase : Stays s.entries { i with phase }) : Inv (s.move install i phase) := by
  refine hs.installs_of (fun entry => ?_) (hs.stays_move hphase)
  have h := holders_move hi phase entry
  rwa [if_neg (hbefore entry), if_neg (hafter entry)] at h

/-! ## The events -/

theorem Inv.call (hs : Inv s) (key : K) : Inv (step s (.call key)) := by
  obtain ⟨hnext, -, hwaits⟩ := hs.entryFor key
  refine hnext.installs_of (fun entry => ?_) fun i hi => ?_
  · rw [List.countP_append]
    rfl
  · rcases List.mem_append.mp hi with hi | hi
    · exact hnext.installs i hi
    · obtain rfl := List.mem_singleton.mp hi
      exact hwaits

theorem Inv.goOn (hs : Inv s) (hi : s.installs[install]? = some i) (hphase : i.phase = .waiting entry)
    (hx : s.entries[entry]? = some x) : Inv (goOn s install i entry x) := by
  have hbefore : ∀ other, i.phase ≠ .holding other := by
    intro other h
    rw [hphase] at h
    cases h
  unfold PackagesLease.goOn
  split
  · exact hs
  · exact hs.move hi hbefore (fun _ h => Phase.noConfusion h) trivial
  · next hsession =>
    split
    · -- it ended while the install waited, and the install waits again
      obtain ⟨hnext, hinstalls, hwaits⟩ := (hs.delete i.key).entryFor i.key
      exact hnext.move (hinstalls ▸ hi) hbefore (fun _ h => Phase.noConfusion h) hwaits
    · -- one more that holds the session
      have hholders : ∀ other, (s.move install i (.holding entry)).holders other =
          s.holders other + if entry = other then 1 else 0 := by
        intro other
        have h := holders_move hi (.holding entry) other
        rw [if_neg (hbefore other)] at h
        simpa using h
      have hstays := hs.installs i (List.mem_of_getElem? hi)
      rw [Stays, hphase] at hstays
      obtain ⟨y, hy, hstop⟩ := hstays
      obtain rfl : y = x := Option.some.inj (hy.symm.trans hx)
      refine hs.update (fun y hy => ⟨rfl, rfl, id, fun h => Bool.noConfusion h⟩) (fun other y hy => ?_)
        (fun other y hy hystop => ?_) (hs.stays_move ⟨y, hx, hsession⟩)
      · have hcount := hs.inUse other y hy
        refine Eq.trans ?_ (hholders other).symm
        by_cases h : entry = other
        · rw [if_pos h, if_pos h, hcount]
        · rw [if_neg h, if_neg h, hcount, Nat.add_zero]
      · refine (hholders other).trans ?_
        rw [if_neg, hs.stop other y hy hystop]
        rintro rfl
        rw [Option.some.inj (hx.symm.trans hy), hystop] at hstop
        cases hstop

theorem Inv.released (hs : Inv s) (hi : s.installs[install]? = some i)
    (hphase : i.phase = .holding entry) (hget : s.packagesSessions.get i.key = some entry) :
    Inv ((released s i.key).move install i .over) := by
  have hstays := hs.installs i (List.mem_of_getElem? hi)
  rw [Stays, hphase] at hstays
  obtain ⟨x, hx, hsession⟩ := hstays
  have hholders : ∀ other, (s.move install i .over).holders other + (if entry = other then 1 else 0) =
      s.holders other := by
    intro other
    have h := holders_move hi .over other
    rw [hphase] at h
    simpa using h
  rw [PackagesLease.released, hget]
  refine hs.update (fun y hy => ⟨rfl, rfl, id, fun _ => ?_⟩) (fun other y hy => ?_)
    (fun other y hy hystop => ?_) (hs.stays_move trivial)
  · rw [← Option.some.inj (hx.symm.trans hy)]
    exact hsession
  · -- the count and the installs that hold the session are one less, both
    have hcount := hs.inUse other y hy
    have hless := hholders other
    by_cases h : entry = other
    · rw [if_pos h] at hless ⊢
      exact (congrArg (· - 1) (hcount.trans hless.symm)).trans (Nat.add_sub_cancel _ 1)
    · rw [if_neg h] at hless ⊢
      exact hcount.trans hless.symm
  · have hnone := hs.stop other y hy hystop
    exact Nat.eq_zero_of_le_zero (hnone ▸ hholders other ▸ Nat.le_add_right _ _)

/-- A session is stopped that no install holds, waits for or will look up. -/
theorem Inv.stopped (hs : Inv s) (hgone : ∀ key, s.packagesSessions.get key ≠ some entry)
    (hnone : s.holders entry = 0) (hwaits : ∀ i ∈ s.installs, i.phase ≠ .waiting entry) :
    Inv (s.modify entry fun x => { x with idle := false, stop := true }) := by
  have hkept : ∀ other x, entry ≠ other → s.entries[other]? = some x →
      (s.modify entry fun x => { x with idle := false, stop := true }).entries[other]? = some x := by
    intro other x hne hx
    rw [State.modify, List.getElem?_modify, hx]
    simp [hne]
  refine ⟨⟨fun other y hy => ?_, fun other y hy hstop => ?_⟩, fun key other hother => ?_,
    fun i hi => ?_, fun other y hy hidle => ?_⟩
  · obtain ⟨x, hx, rfl⟩ := getElem?_modify_of hy
    refine Eq.trans ?_ (hs.inUse other x hx)
    split <;> rfl
  · obtain ⟨x, hx, rfl⟩ := getElem?_modify_of hy
    by_cases h : entry = other
    · exact h ▸ hnone
    · rw [if_neg h] at hstop
      exact hs.stop other x hx hstop
  · have hne : entry ≠ other := fun h => hgone key (h ▸ hother)
    obtain ⟨x, hx, hknown⟩ := hs.known key other hother
    exact ⟨x, hkept other x hne hx, hknown⟩
  · have hstays := hs.installs i hi
    unfold Stays at hstays ⊢
    split at hstays
    · next other hphase =>
      obtain ⟨x, hx, hstop⟩ := hstays
      exact ⟨x, hkept other x (fun h => hwaits i hi (h ▸ hphase)) hx, hstop⟩
    · next other hphase =>
      -- it holds the session, so it is not the one that is stopped
      obtain ⟨x, hx, hsession⟩ := hstays
      refine ⟨x, hkept other x (fun h => ?_) hx, hsession⟩
      rw [State.holders, List.countP_eq_zero] at hnone
      exact hnone i hi (decide_eq_true (h ▸ hphase))
    · trivial
  · obtain ⟨x, hx, rfl⟩ := getElem?_modify_of hy
    by_cases h : entry = other
    · rw [if_pos h] at hidle
      cases hidle
    · rw [if_neg h] at hidle ⊢
      exact hs.idle other x hx hidle

/-- No install waits for a session that is there while timers run. -/
theorem Inv.timeout (hs : Inv s) (hx : s.entries[entry]? = some x) (hidle : x.idle = true)
    (hready : s.ready = false) : Inv (timeout s entry x) := by
  unfold PackagesLease.timeout
  split
  · exact hs.modify fun y hy => ⟨⟨rfl, rfl, id, fun h => Bool.noConfusion h⟩, rfl⟩
  · next hinUse =>
    have hnone : s.holders entry = 0 := by
      rw [← hs.inUse entry x hx]
      exact Nat.eq_zero_of_not_pos hinUse
    have hsession := hs.idle entry x hx hidle
    have hwaits : ∀ i ∈ s.installs, i.phase ≠ .waiting entry := by
      intro i hi hphase
      refine Bool.false_ne_true (hready.symm.trans (List.any_eq_true.mpr ⟨i, hi, ?_⟩))
      -- its session is there: who waits for it goes on before the timer
      rw [hphase]
      simp [hx, hsession]
    have hkey : ∀ key, s.packagesSessions.get key = some entry → key = x.key := by
      intro key hget
      obtain ⟨y, hy, hykey, -⟩ := hs.known key entry hget
      rw [← hykey, Option.some.inj (hx.symm.trans hy)]
    split
    · refine (hs.delete x.key).stopped (fun key hget => ?_) hnone hwaits
      have hdeleted := get_of_get_delete hget
      exact hdeleted.1 (hkey key hdeleted.2)
    · next hother =>
      exact hs.stopped (fun key hget => hother (hkey key hget ▸ hget)) hnone hwaits

/-- **One event** under which a release finds its own entry. -/
theorem Inv.step (hs : Inv s) (e : Event K) (hfinds : finds s e) : Inv (step s e) := by
  cases e with
  | call key => exact hs.call key
  | go install =>
    simp only [PackagesLease.step]
    split
    · next i hi =>
      split
      · next entry hphase =>
        split
        · next current hx => exact hs.goOn hi hphase hx
        · exact hs
      · exact hs
    · exact hs
  | released install =>
    simp only [PackagesLease.step]
    split
    · next i hi =>
      split
      · next entry hphase =>
        refine hs.released hi hphase (hfinds i.key entry ?_)
        obtain ⟨key, phase⟩ := i
        obtain rfl : phase = .holding entry := hphase
        rw [State.given, hi]
      · exact hs
    · exact hs
  | timer entry =>
    simp only [PackagesLease.step]
    split
    · next current hx =>
      split
      · next htimer =>
        rw [Bool.and_eq_true, Bool.not_eq_true'] at htimer
        exact hs.timeout hx htimer.1 htimer.2
      · exact hs
    · exact hs
  | created entry =>
    refine hs.modify fun x hx => ⟨⟨rfl, rfl, fun h => ?_, fun h => ?_⟩, rfl⟩
    · simp [h]
    · simp [hs.idle entry x hx h]
  | fails entry =>
    simp only [PackagesLease.step]
    split
    · next current hx =>
      split
      · next hpending =>
        refine (hs.delete current.key).modify fun x hx' => ⟨⟨rfl, rfl, fun h => ?_, fun h => ?_⟩, rfl⟩
        · rw [← Option.some.inj (hx.symm.trans hx'), hpending] at h
          cases h
        · rw [← Option.some.inj (hx.symm.trans hx')] at h
          have hcreated := hs.idle entry current hx h
          rw [hpending] at hcreated
          cases hcreated
      · exact hs
    · exact hs
  | dies entry => exact hs.modify fun x hx => ⟨⟨rfl, rfl, id, hs.idle entry x hx⟩, rfl⟩

theorem inv_init : Inv ({} : State K) :=
  ⟨⟨fun _ _ h => by simp at h, fun _ _ h => by simp at h⟩, fun _ _ h => by simp [InsertionMap.get] at h,
    fun _ h => by simp at h, fun _ _ h => by simp at h⟩

omit [DecidableEq K] in
theorem given_eq_some {key : K} : s.given install = some (key, entry) ↔
    s.installs[install]? = some ⟨key, .holding entry⟩ := by
  unfold State.given
  split
  · next hi => simp [hi]
  · next hi =>
    refine iff_of_false (fun h => ?_) fun h => hi _ _ h
    cases h

theorem released_getElem? {key : K} (h : s.packagesSessions.get key ≠ some entry) :
    (released s key).entries[entry]? = s.entries[entry]? := by
  unfold released
  split
  · rfl
  · next current hget =>
    rw [State.modify, List.getElem?_modify_ne]
    rintro rfl
    exact h hget

theorem released_installs (key : K) : (released s key).installs = s.installs := by
  unfold released
  split <;> rfl

theorem step_released {key : K} (h : s.given install = some (key, entry)) :
    step s (.released install) = (released s key).move install ⟨key, .holding entry⟩ .over := by
  simp only [step, given_eq_some.mp h]

/-- A release that finds another entry, or none, leaves the count of its own too high. -/
theorem Inv.not_leased (hs : Inv s) {e : Event K} (hfinds : ¬ finds s e) : ¬ Leased (PackagesLease.step s e) := by
  cases e with
  | released install =>
    obtain ⟨key, entry, hgiven, hget⟩ : ∃ key entry, s.given install = some (key, entry) ∧
        s.packagesSessions.get key ≠ some entry := by
      simpa [finds] using hfinds
    have hi := given_eq_some.mp hgiven
    obtain ⟨x, hx, -⟩ := hs.installs _ (List.mem_of_getElem? hi)
    intro hleased
    rw [step_released hgiven] at hleased
    have hafter : x.inUse = (s.move install ⟨key, .holding entry⟩ .over).holders entry := by
      refine (hleased.inUse entry x ((released_getElem? hget).trans hx)).trans ?_
      rw [State.holders, State.move, released_installs]
      rfl
    -- one holder less, and the count as before
    have hmove := holders_move hi .over entry
    rw [← hafter, ← hs.inUse entry x hx] at hmove
    simp at hmove
  | _ => exact absurd trivial hfinds

/-- A release that finds its own entry changes no other. -/
theorem releasesOwn_of_finds {e : Event K} (hfinds : finds s e) : ReleasesOwn s e := by
  rintro install key entry rfl hgiven other hother
  have hget := hfinds key entry hgiven
  rw [step_released hgiven]
  refine congrArg _ (released_getElem? ?_)
  rw [hget]
  exact fun h => hother (Option.some.inj h).symm

/-- **The lease is kept** exactly when every release finds the entry of the session its install was
given. -/
theorem leased_iff (es : List (Event K)) :
    Kept es ↔ ∀ pre e, pre ++ [e] <+: es → finds (run pre) e := by
  have hiff := System.forall_prefix_iff inv_init (fun _ h => h.toLeased) (fun _ e h => h.step e)
    (fun _ _ h => h.not_leased) es
  constructor
  · exact fun h => hiff.mp h.1
  · exact fun h => ⟨hiff.mpr h, fun pre e hpre => releasesOwn_of_finds (h pre e hpre)⟩

/-! ## A session that dies -/

/-- One install's session dies, another install has a new one, and the first gives it back. -/
def died : List (Event Unit) :=
  [.call (), .created 0, .go 0, .dies 0, .call (), .go 1, .created 1, .go 1, .released 0, .timer 1]

/-- **The timer stops a session that is in use.** -/
theorem stopped_in_use : ¬ Kept died := by
  intro h
  have hstop := (h.1 died (List.prefix_refl _)).stop 1
    { key := (), session := .created, inUse := 0, stop := true } (by decide) rfl
  exact absurd hstop (by decide)

end Jovian.PackagesLease
