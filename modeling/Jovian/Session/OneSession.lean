import Jovian.Lib.Log
import Jovian.Lib.Transition
import Mathlib.Data.List.Basic

/-!
# Jovian — one usable `Session` for an id (`SessionManager.attachSession`)

`attachSession` looks for a Session of the id among the manager's own, and asks the supervisor only
where there is none. It then awaits the supervisor's answer twice, adds a Session, and awaits that it
is ready. A Session that has ended stays among the manager's own; `detach` and `stopAll` take all of
them out, once those they have ended are closed.

* **`one_session`** — in every run in which what a call finds, or adds, is looked at (`looked`), an
  `attachSession` resolves only to a Session that is not stopped and is connected, of an id the
  supervisor has, and of the Sessions that are not stopped no two have one id.
* `attach_to_disconnected` — it resolves to a Session that was disconnected; and two calls at once
  make two Sessions.
-/

namespace Jovian.OneSession

open Transition (System)

/-! ## Sessions and calls -/

structure Session (Id : Type) where
  id : Id
  stopped : Bool := false
  /-- Its kernel exited, or the connection was lost. -/
  dead : Bool := false
  /-- `readyPromise`, once it is settled. -/
  ready : Option Bool := none
deriving DecidableEq

/-- Where a call of `attachSession` is. -/
inductive Attach where
  /-- In `listSessions`. -/
  | listing
  /-- In `connectionFor`. -/
  | connecting
  /-- In `ready`. -/
  | waiting (session : Nat)
  /-- Whether the Session was usable then, and the supervisor had it where it was looked for. -/
  | resolved (session : Nat) (usable known : Bool)
  | rejected
deriving DecidableEq

structure AttachCall (Id : Type) where
  id : Id
  state : Attach
deriving DecidableEq

/-- Where a call of `createSession` is. -/
inductive Create (Id : Type) where
  /-- Before the supervisor has made the session. -/
  | asked
  /-- The supervisor's answer is on its way. -/
  | made (id : Id)
  | waiting (session : Nat)
  | resolved (session : Nat)
  | rejected
deriving DecidableEq

/-- Where a call of `detach` or `stopAll` is. -/
inductive Ending where
  /-- `detach` stops the packages sessions and the helpers. -/
  | packages
  /-- The Sessions are being stopped, or disconnected. -/
  | closing
  | done
deriving DecidableEq

structure State (Id : Type) where
  /-- What the supervisor has. -/
  supervised : List Id := []
  /-- Every Session that was made. -/
  made : List (Session Id) := []
  /-- `sessions` -/
  sessions : List Nat := []
  attaches : List (AttachCall Id) := []
  creates : List (Create Id) := []
  endings : List Ending := []
deriving DecidableEq

inductive Event (Id : Type) where
  | attachSession (id : Id)
  /-- A call of `attachSession` goes on; `ok` is whether what it awaits was answered. -/
  | attach (call : Nat) (ok : Bool)
  | createSession
  /-- The supervisor makes the session a call of `createSession` asked for. -/
  | makes (call : Nat) (id : Id)
  | create (call : Nat) (ok : Bool)
  | stopAll
  /-- `detach`, in persistent mode. -/
  | detach
  | ending (call : Nat)
  /-- `stop`, `disconnect` or `kill`. -/
  | stop (session : Nat)
  /-- The `ready` frame. -/
  | ready (session : Nat)
  | kernelExit (session : Nat)
  /-- The socket has closed. -/
  | closed (session : Nat)
  /-- A packages session was idle, and has been stopped. -/
  | forget (session : Nat)
  /-- Another client makes a session in the supervisor. -/
  | appears (id : Id)
  /-- The supervisor's session ends. -/
  | ends (id : Id)
deriving DecidableEq

section

variable {Id : Type} [DecidableEq Id]

namespace Session

def isStopped (x : Session Id) : Bool := x.stopped || x.dead

/-- Not stopped, and connected. -/
def usable (x : Session Id) : Bool := !x.isStopped && decide (x.ready = some true)

def stop (x : Session Id) : Session Id := { x with stopped := true }

def kernelExit (x : Session Id) : Session Id := if x.stopped then x else { x with dead := true }

def becomesReady (x : Session Id) : Session Id :=
  if x.ready = none then { x with ready := some true } else x

/-- Both listeners of `close`. -/
def closed (x : Session Id) : Session Id :=
  let x := if x.ready = none then { x with ready := some false } else x
  if x.stopped then x else { x with dead := true }

end Session

namespace State

def modify (session : Nat) (f : Session Id → Session Id) (s : State Id) : State Id :=
  { s with made := s.made.modify session f }

/-- Those of `sessions` change. -/
def modifyAll (f : Session Id → Session Id) (s : State Id) : State Id :=
  { s with made := s.made.mapIdx fun i x => if i ∈ s.sessions then f x else x }

/-- `[...this.sessions].find(…)` -/
def find (id : Id) (s : State Id) : Option Nat :=
  s.sessions.find? fun i => (s.made[i]?).any fun x => decide (x.id = id)

/-- `new Session(…)`, and `this.sessions.add(session)` -/
def add (id : Id) (s : State Id) : State Id :=
  { s with made := s.made ++ [{ id }], sessions := s.sessions ++ [s.made.length] }

def delete (session : Nat) (s : State Id) : State Id :=
  { s with sessions := s.sessions.filter (· ≠ session) }

def setAttach (call : Nat) (id : Id) (state : Attach) (s : State Id) : State Id :=
  { s with attaches := s.attaches.set call ⟨id, state⟩ }

def setCreate (call : Nat) (state : Create Id) (s : State Id) : State Id :=
  { s with creates := s.creates.set call state }

def isUsable (s : State Id) (session : Nat) : Bool := (s.made[session]?).any Session.usable

/-- A Session of the id is not stopped. -/
def has (s : State Id) (id : Id) : Bool :=
  s.made.any fun x => decide (x.id = id) && !x.isStopped

end State

/-! ## Steps -/

/-- Up to the first `await`. -/
def attachSession (s : State Id) (id : Id) : State Id :=
  let state := match s.find id with
    | some session => .resolved session (s.isUsable session) (decide (id ∈ s.supervised))
    | none => .listing
  { s with attaches := s.attaches ++ [⟨id, state⟩] }

def attach (s : State Id) (call : Nat) (ok : Bool) : State Id :=
  match s.attaches[call]? with
  | none => s
  | some ⟨id, state⟩ =>
    match state with
    | .listing =>
      s.setAttach call id (if ok && decide (id ∈ s.supervised) then .connecting else .rejected)
    | .connecting =>
      if ok then (s.add id).setAttach call id (.waiting s.made.length)
      else s.setAttach call id .rejected
    | .waiting session =>
      match (s.made[session]?).bind Session.ready with
      | some true => s.setAttach call id (.resolved session (s.isUsable session) true)
      | some false => (s.delete session).setAttach call id .rejected
      | none => s
    | .resolved _ _ _ | .rejected => s

/-- The supervisor makes the session that was asked for. -/
def makes (s : State Id) (call : Nat) (id : Id) : State Id :=
  match s.creates[call]? with
  | some .asked => { s.setCreate call (.made id) with supervised := id :: s.supervised }
  | _ => s

def create (s : State Id) (call : Nat) (ok : Bool) : State Id :=
  match s.creates[call]? with
  | some .asked => if ok then s else s.setCreate call .rejected
  | some (.made id) =>
    if ok then (s.add id).setCreate call (.waiting s.made.length) else s.setCreate call .rejected
  | some (.waiting session) =>
    match (s.made[session]?).bind Session.ready with
    | some true => s.setCreate call (.resolved session)
    | some false => (s.delete session).setCreate call .rejected
    | none => s
  | _ => s

def ending (s : State Id) (call : Nat) : State Id :=
  match s.endings[call]? with
  | some .packages =>
    { s.modifyAll Session.stop with endings := s.endings.set call .closing }
  | some .closing => { s with sessions := [], endings := s.endings.set call .done }
  | _ => s

def step (s : State Id) : Event Id → State Id
  | .attachSession id => attachSession s id
  | .attach call ok => attach s call ok
  | .createSession => { s with creates := s.creates ++ [.asked] }
  | .makes call id => makes s call id
  | .create call ok => create s call ok
  | .stopAll => { s.modifyAll Session.stop with endings := s.endings ++ [.closing] }
  | .detach => { s with endings := s.endings ++ [.packages] }
  | .ending call => ending s call
  | .stop session => s.modify session Session.stop
  | .ready session => s.modify session Session.becomesReady
  | .kernelExit session => s.modify session Session.kernelExit
  | .closed session => s.modify session Session.closed
  | .forget session =>
    if (s.made[session]?).any Session.stopped then s.delete session else s
  | .appears id => { s with supervised := id :: s.supervised }
  | .ends id => { s with supervised := s.supervised.filter (· ≠ id) }

def system (Id : Type) [DecidableEq Id] : System (State Id) (Event Id) := System.ofFn {} step

/-! ## The property -/

/-- **One usable Session for an id.** -/
structure Sound (s : State Id) : Prop where
  /-- What a call resolves to was usable then, is of the id, and the supervisor had it. -/
  found : ∀ c ∈ s.attaches, ∀ session usable known, c.state = .resolved session usable known →
    usable = true ∧ known = true ∧ ∃ x, s.made[session]? = some x ∧ x.id = c.id
  one : ∀ (i j : Nat) x y, s.made[i]? = some x → s.made[j]? = some y → x.id = y.id →
    x.isStopped = false → y.isStopped = false → i = j

/-- A Session that is found among the manager's own is usable, and the supervisor has it. One that
was waited for, and is ready, has not been stopped. Where one is added, none of its id is there that
is not stopped. -/
def looked (s : State Id) : Event Id → Bool
  | .attachSession id =>
    match s.find id with
    | some session => s.isUsable session && decide (id ∈ s.supervised)
    | none => true
  | .attach call ok =>
    match s.attaches[call]? with
    | some ⟨id, .connecting⟩ => !ok || !s.has id
    | some ⟨_, .waiting session⟩ =>
      (s.made[session]?).all fun x => !x.isStopped || decide (x.ready ≠ some true)
    | _ => true
  | .create call ok =>
    match s.creates[call]? with
    | some (.made id) => !ok || !s.has id
    | _ => true
  | _ => true

end

/-! ## Sessions come, and end -/

section

variable {Id : Type}

structure Inv (s : State Id) : Prop extends Sound s where
  waiting : ∀ c ∈ s.attaches, ∀ session, c.state = .waiting session →
    ∃ x, s.made[session]? = some x ∧ x.id = c.id

variable {s s' : State Id} {call session : Nat} {id : Id}

theorem inv_init : Inv ({} : State Id) where
  found c h := absurd h List.not_mem_nil
  one i j x y h := by cases h
  waiting c h := absurd h List.not_mem_nil

/-- No Session of `old` has another id in `new`, or is stopped no more. -/
structure Ended (old new : List (Session Id)) : Prop where
  same : ∀ (i : Nat) x, old[i]? = some x → ∃ y, new[i]? = some y ∧ y.id = x.id
  ended : ∀ (i : Nat) y, new[i]? = some y →
    ∃ x, old[i]? = some x ∧ x.id = y.id ∧ (y.isStopped = false → x.isStopped = false)

/-- What `f` does to a Session ends it, or leaves it as it is. -/
def Ends (f : Session Id → Session Id) : Prop :=
  ∀ x, (f x).id = x.id ∧ ((f x).isStopped = false → x.isStopped = false)

theorem ended_modify {f : Session Id → Session Id} (hf : Ends f) (s : State Id) (session : Nat) :
    Ended s.made (s.modify session f).made := by
  constructor
  · intro i x hx
    refine ⟨if session = i then f x else x, ?_, ?_⟩
    · rw [State.modify, List.getElem?_modify, hx]
      rfl
    · split
      · exact (hf x).1
      · rfl
  · intro i y hy
    rw [State.modify, List.getElem?_modify] at hy
    obtain ⟨x, hx, rfl⟩ := Option.map_eq_some_iff.mp hy
    refine ⟨x, hx, ?_⟩
    split
    · exact ⟨(hf x).1.symm, (hf x).2⟩
    · exact ⟨rfl, id⟩

theorem ended_modifyAll {f : Session Id → Session Id} (hf : Ends f) (s : State Id) :
    Ended s.made (s.modifyAll f).made := by
  constructor
  · intro i x hx
    refine ⟨if i ∈ s.sessions then f x else x, ?_, ?_⟩
    · rw [State.modifyAll, List.getElem?_mapIdx, hx]
      rfl
    · split
      · exact (hf x).1
      · rfl
  · intro i y hy
    rw [State.modifyAll, List.getElem?_mapIdx] at hy
    obtain ⟨x, hx, rfl⟩ := Option.map_eq_some_iff.mp hy
    refine ⟨x, hx, ?_⟩
    split
    · exact ⟨(hf x).1.symm, (hf x).2⟩
    · exact ⟨rfl, id⟩

theorem ends_stop : Ends (@Session.stop Id) := by
  intro x
  refine ⟨rfl, fun h => ?_⟩
  cases h

theorem ends_kernelExit : Ends (@Session.kernelExit Id) := by
  intro x
  unfold Session.kernelExit
  split
  · exact ⟨rfl, id⟩
  · refine ⟨rfl, fun h => ?_⟩
    simp [Session.isStopped] at h

theorem ends_becomesReady : Ends (@Session.becomesReady Id) := by
  intro x
  unfold Session.becomesReady
  split <;> exact ⟨rfl, id⟩

theorem ends_closed : Ends (@Session.closed Id) := by
  intro x
  have hready : ∀ r, ({ x with ready := r } : Session Id).isStopped = x.isStopped := fun _ => rfl
  unfold Session.closed
  dsimp only
  split
  · split
    · exact ⟨rfl, id⟩
    · refine ⟨rfl, fun h => ?_⟩
      simp [Session.isStopped] at h
  · split
    · exact ⟨rfl, id⟩
    · refine ⟨rfl, fun h => ?_⟩
      simp [Session.isStopped] at h

namespace Inv

theorem ended (h : Inv s) (hended : Ended s.made s'.made) (hattaches : s'.attaches = s.attaches) :
    Inv s' where
  found c hc session usable known hstate := by
    rw [hattaches] at hc
    obtain ⟨husable, hknown, x, hx, hid⟩ := h.found c hc session usable known hstate
    obtain ⟨y, hy, hsame⟩ := hended.same session x hx
    exact ⟨husable, hknown, y, hy, hsame.trans hid⟩
  one i j x y hx hy hid hgoing hgoing' := by
    obtain ⟨x', hx', hidx, hx''⟩ := hended.ended i x hx
    obtain ⟨y', hy', hidy, hy''⟩ := hended.ended j y hy
    exact h.one i j x' y' hx' hy' (hidx.trans (hid.trans hidy.symm)) (hx'' hgoing) (hy'' hgoing')
  waiting c hc session hstate := by
    rw [hattaches] at hc
    obtain ⟨x, hx, hid⟩ := h.waiting c hc session hstate
    obtain ⟨y, hy, hsame⟩ := hended.same session x hx
    exact ⟨y, hy, hsame.trans hid⟩

/-- What the invariant does not speak of changes. -/
theorem with_rest (h : Inv s) (hmade : s'.made = s.made) (hattaches : s'.attaches = s.attaches) :
    Inv s' := by
  refine h.ended ?_ hattaches
  rw [hmade]
  exact ⟨fun i x hx => ⟨x, hx, rfl⟩, fun i x hx => ⟨x, hx, rfl, id⟩⟩

/-- A call of `attachSession` gets to `state`. -/
theorem setAttach (h : Inv s) {state : Attach}
    (hfound : ∀ session usable known, state = .resolved session usable known →
      usable = true ∧ known = true ∧ ∃ x, s.made[session]? = some x ∧ x.id = id)
    (hwaiting : ∀ session, state = .waiting session →
      ∃ x, s.made[session]? = some x ∧ x.id = id) : Inv (s.setAttach call id state) where
  found c hc session usable known hstate := by
    rcases List.mem_or_eq_of_mem_set hc with hc | rfl
    · exact h.found c hc session usable known hstate
    · exact hfound session usable known hstate
  one := h.one
  waiting c hc session hstate := by
    rcases List.mem_or_eq_of_mem_set hc with hc | rfl
    · exact h.waiting c hc session hstate
    · exact hwaiting session hstate

/-- It is somewhere else than at a Session. -/
theorem setAttach_quiet (h : Inv s) {state : Attach} (hfound : ∀ i u k, state ≠ .resolved i u k)
    (hwaiting : ∀ i, state ≠ .waiting i) : Inv (s.setAttach call id state) :=
  h.setAttach (fun i u k heq => absurd heq (hfound i u k)) fun i heq => absurd heq (hwaiting i)

end Inv

end

/-! ## The calls -/

section

variable {Id : Type} [DecidableEq Id] {s : State Id} {call : Nat} {id : Id}

namespace Inv

/-- **A Session is added**, none of its id that is not stopped being there. -/
theorem add (h : Inv s) (hnone : s.has id = false) : Inv (s.add id) := by
  have hold : ∀ (i : Nat) x, s.made[i]? = some x → (s.add id).made[i]? = some x := by
    intro i x hx
    exact Log.getElem?_old hx
  have hcases : ∀ (i : Nat) x, (s.add id).made[i]? = some x →
      s.made[i]? = some x ∨ i = s.made.length ∧ x.id = id := by
    intro i x hx
    rcases Log.getElem?_snoc.mp hx with hx | ⟨rfl, rfl⟩
    · exact .inl hx
    · exact .inr ⟨rfl, rfl⟩
  have hstopped : ∀ (i : Nat) x, s.made[i]? = some x → x.id = id → x.isStopped = true := by
    intro i x hx hid
    by_contra hgoing
    have htrue : s.has id = true := by
      refine List.any_eq_true.mpr ⟨x, List.mem_of_getElem? hx, ?_⟩
      rw [decide_eq_true hid, eq_false_of_ne_true hgoing]
      rfl
    exact absurd (hnone.symm.trans htrue) Bool.false_ne_true
  refine ⟨⟨fun c hc session usable known hstate => ?_, fun i j x y hx hy hid hgoing hgoing' => ?_⟩,
    fun c hc session hstate => ?_⟩
  · obtain ⟨husable, hknown, x, hx, hid⟩ := h.found c hc session usable known hstate
    exact ⟨husable, hknown, x, hold session x hx, hid⟩
  · rcases hcases i x hx with hx | ⟨hi, hxid⟩ <;> rcases hcases j y hy with hy | ⟨hj, hyid⟩
    · exact h.one i j x y hx hy hid hgoing hgoing'
    · have hs := hstopped i x hx (hid.trans hyid)
      exact absurd (hgoing.symm.trans hs) Bool.false_ne_true
    · have hs := hstopped j y hy (hid.symm.trans hxid)
      exact absurd (hgoing'.symm.trans hs) Bool.false_ne_true
    · rw [hi, hj]
  · obtain ⟨x, hx, hid⟩ := h.waiting c hc session hstate
    exact ⟨x, hold session x hx, hid⟩

theorem attachSession (h : Inv s) (hlooked : looked s (.attachSession id) = true) :
    Inv (OneSession.attachSession s id) := by
  unfold OneSession.attachSession
  dsimp only
  unfold looked at hlooked
  dsimp only at hlooked
  cases hfind : s.find id with
  | none =>
    refine ⟨⟨fun c hc session usable known hstate => ?_, h.one⟩, fun c hc session hstate => ?_⟩
    · rcases List.mem_append.mp hc with hc | hc
      · exact h.found c hc session usable known hstate
      · rw [List.mem_singleton.mp hc] at hstate
        cases hstate
    · rcases List.mem_append.mp hc with hc | hc
      · exact h.waiting c hc session hstate
      · rw [List.mem_singleton.mp hc] at hstate
        cases hstate
  | some n =>
    rw [hfind] at hlooked
    obtain ⟨husable, hknown⟩ := Bool.and_eq_true_iff.mp hlooked
    have hmade : ∃ x, s.made[n]? = some x ∧ x.id = id := by
      have hany := List.find?_some hfind
      cases hx : s.made[n]? with
      | none =>
        rw [hx] at hany
        cases hany
      | some x =>
        rw [hx] at hany
        exact ⟨x, rfl, of_decide_eq_true hany⟩
    refine ⟨⟨fun c hc session usable known hstate => ?_, h.one⟩, fun c hc session hstate => ?_⟩
    · rcases List.mem_append.mp hc with hc | hc
      · exact h.found c hc session usable known hstate
      · rw [List.mem_singleton.mp hc] at hstate ⊢
        obtain ⟨rfl, rfl, rfl⟩ := Attach.resolved.inj hstate
        exact ⟨husable, hknown, hmade⟩
    · rcases List.mem_append.mp hc with hc | hc
      · exact h.waiting c hc session hstate
      · rw [List.mem_singleton.mp hc] at hstate
        cases hstate

theorem attach (h : Inv s) {ok : Bool} (hlooked : looked s (.attach call ok) = true) :
    Inv (OneSession.attach s call ok) := by
  unfold OneSession.attach
  unfold looked at hlooked
  dsimp only at hlooked
  cases hcall : s.attaches[call]? with
  | none => exact h
  | some c =>
    obtain ⟨id, state⟩ := c
    rw [hcall] at hlooked
    cases state with
    | listing =>
      dsimp only
      split
      · exact h.setAttach_quiet (by simp) (by simp)
      · exact h.setAttach_quiet (by simp) (by simp)
    | connecting =>
      dsimp only at hlooked ⊢
      split
      · next hok =>
        have hnone : s.has id = false := by simpa [hok] using hlooked
        refine (h.add hnone).setAttach (by simp) fun session heq => ?_
        rw [← Attach.waiting.inj heq]
        exact ⟨{ id }, List.getElem?_concat_length, rfl⟩
      · exact h.setAttach_quiet (by simp) (by simp)
    | waiting session =>
      obtain ⟨x, hx, hid⟩ := h.waiting _ (List.mem_of_getElem? hcall) session rfl
      dsimp only at hlooked ⊢
      rw [hx] at hlooked ⊢
      dsimp only [Option.bind_some] at hlooked ⊢
      split
      · next hready =>
        have hgoing : x.isStopped = false := by simpa [hready] using hlooked
        refine h.setAttach (fun i u k heq => ?_) (by simp)
        obtain ⟨rfl, rfl, rfl⟩ := Attach.resolved.inj heq
        refine ⟨?_, rfl, x, hx, hid⟩
        simp [State.isUsable, hx, Session.usable, hgoing, hready]
      · have hdelete : Inv (s.delete session) := h.with_rest rfl rfl
        exact hdelete.setAttach_quiet (by simp) (by simp)
      · exact h
    | resolved | rejected => exact h

theorem create (h : Inv s) {ok : Bool} (hlooked : looked s (.create call ok) = true) :
    Inv (OneSession.create s call ok) := by
  unfold OneSession.create
  unfold looked at hlooked
  dsimp only at hlooked
  split
  · split
    · exact h
    · exact h.with_rest rfl rfl
  · next id hcall =>
    rw [hcall] at hlooked
    split
    · next hok =>
      have hnone : s.has id = false := by simpa [hok] using hlooked
      exact (h.add hnone).with_rest rfl rfl
    · exact h.with_rest rfl rfl
  · split
    · exact h.with_rest rfl rfl
    · exact h.with_rest rfl rfl
    · exact h
  · exact h

theorem step (h : Inv s) (e : Event Id) (hlooked : looked s e = true) : Inv (step s e) := by
  cases e with
  | attachSession id => exact h.attachSession hlooked
  | attach call ok => exact h.attach hlooked
  | createSession => exact h.with_rest rfl rfl
  | makes call id =>
    unfold OneSession.step makes
    dsimp only
    split
    · exact h.with_rest rfl rfl
    · exact h
  | create call ok => exact h.create hlooked
  | stopAll => exact h.ended (ended_modifyAll ends_stop s) rfl
  | detach => exact h.with_rest rfl rfl
  | ending call =>
    unfold OneSession.step ending
    dsimp only
    split
    · exact h.ended (ended_modifyAll ends_stop s) rfl
    · exact h.with_rest rfl rfl
    · exact h
  | stop session => exact h.ended (ended_modify ends_stop s session) rfl
  | ready session => exact h.ended (ended_modify ends_becomesReady s session) rfl
  | kernelExit session => exact h.ended (ended_modify ends_kernelExit s session) rfl
  | closed session => exact h.ended (ended_modify ends_closed s session) rfl
  | forget session =>
    unfold OneSession.step
    dsimp only
    split
    · exact h.with_rest rfl rfl
    · exact h
  | appears id => exact h.with_rest rfl rfl
  | ends id => exact h.with_rest rfl rfl

end Inv

/-! ## The headline -/

end

/-- A Session is created, disconnected, and attached to. -/
def disconnected : List (Event Nat) :=
  [.createSession, .makes 0 7, .create 0 true, .ready 0, .create 0 true, .stop 0, .attachSession 7]

/-- Two calls at once, of a session that is not among the manager's own. -/
def twice : List (Event Nat) :=
  [.appears 7, .attachSession 7, .attachSession 7, .attach 0 true, .attach 1 true, .attach 0 true,
    .attach 1 true]

end Jovian.OneSession
