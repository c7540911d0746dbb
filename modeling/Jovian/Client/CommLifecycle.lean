import Jovian.Lib.InsertionMap
import Jovian.Lib.Log
import Jovian.Lib.Transition

/-!
# CommLifecycle — the comms of a client's session

A `Comm` is closed by its owner, by the kernel or with its session. `Session` keeps those it routes
messages to in a map; `openComm`, `send` and `close` wait until the session is ready before they
send.

* **`lifecycle_iff`** — which events go wrong, and that no other does: the owner's `close()` of a
  comm, a session that is killed or disconnected with comms, a comm that is opened once the session
  is over, and one whose `comm_open` goes out after it was reported closed or is given up.
-/

namespace Jovian.CommLifecycle

/-! ## Comms -/

/-- A comm's id: one of the session's UUIDs, numbered, or the kernel's own. -/
inductive CommId where
  | uuid (n : Nat)
  | kernel (name : String)
deriving DecidableEq

/-- What a `Comm` emits; a message with whether it is closed then. -/
inductive CommEvent where
  | message (closed : Bool)
  | close
deriving DecidableEq

structure Comm where
  id : CommId
  isClosed : Bool := false
  events : List CommEvent := []
deriving DecidableEq

namespace Comm

def emitClose (c : Comm) : Comm := { c with events := c.events ++ [.close] }

def receiveMessage (c : Comm) : Comm := { c with events := c.events ++ [.message c.isClosed] }

def receiveClose (c : Comm) : Comm := if c.isClosed then c else { c with isClosed := true }.emitClose

end Comm

/-! ## The session -/

inductive Promise where
  | pending
  | fulfilled
  | rejected
deriving DecidableEq

/-- A call that waits until the session is ready. -/
inductive Call where
  | openComm (id : CommId) (comm : Nat)
  | send (id : CommId)
  | close (id : CommId) (comm : Nat)
deriving DecidableEq

structure Waiting where
  call : Call
  /-- The `readyPromise` there was when it was made. -/
  ready : Nat
deriving DecidableEq

/-- A request the kernel gets; a `comm_open` with whether its comm was reported closed. -/
inductive Sent where
  | commOpen (id : CommId) (reported : Bool)
  | commMsg (id : CommId)
  | commClose (id : CommId)
deriving DecidableEq

structure Session where
  /-- Every `Comm` there was. -/
  objects : List Comm := []
  comms : InsertionMap CommId Nat := []
  /-- How many UUIDs were made. -/
  uuids : Nat := 0
  stopped : Bool := false
  dead : Bool := false
  /-- Every `readyPromise` there was. -/
  ready : List Promise := [.pending]
  /-- A kernel gets what is sent. -/
  link : Bool := false
  wsClosed : Bool := false
  waiting : List Waiting := []
  sent : List Sent := []
deriving DecidableEq

namespace Session

def isStopped (s : Session) : Bool := s.stopped || s.dead

/-- The comm's `close` was emitted. -/
def reported (s : Session) (comm : Nat) : Bool := s.objects[comm]?.any (CommEvent.close ∈ ·.events)

def send (s : Session) (request : Sent) : Session :=
  if s.link then { s with sent := s.sent ++ [request] } else s

def wait (s : Session) (call : Call) : Session :=
  { s with waiting := s.waiting ++ [⟨call, s.ready.length - 1⟩] }

/-- A new comm, in the map. -/
def register (s : Session) (id : CommId) : Session :=
  { s with objects := s.objects ++ [{ id }], comms := s.comms.set id s.objects.length }

def closeAllComms (s : Session) : Session :=
  { s with
    objects := s.comms.foldl (fun objects entry => objects.modify entry.2 Comm.receiveClose) s.objects
    comms := [] }

/-! ## The owner's calls -/

def openComm (s : Session) : Session :=
  { s.register (.uuid s.uuids) with uuids := s.uuids + 1 }.wait
    (.openComm (.uuid s.uuids) s.objects.length)

def sendOver (s : Session) (comm : Nat) : Session :=
  match s.objects[comm]? with
  | none => s
  | some c => if c.isClosed then s else s.wait (.send c.id)

def close (s : Session) (comm : Nat) : Session :=
  match s.objects[comm]? with
  | none => s
  | some c =>
    if c.isClosed then s
    else { s with objects := s.objects.modify comm fun c => { c with isClosed := true } }.wait
      (.close c.id comm)

/-- A call goes on, the session being ready. -/
def goesOn (s : Session) : Call → Session
  | .openComm id comm => s.send (.commOpen id (s.reported comm))
  | .send id => s.send (.commMsg id)
  | .close id comm =>
    let s := s.send (.commClose id)
    { s with objects := s.objects.modify comm Comm.emitClose }

/-- A call throws. -/
def throws (s : Session) : Call → Session
  | .openComm id _ => { s with comms := s.comms.delete id }
  | .send _ | .close _ _ => s

/-- The promise that the call number `k` waits for has settled, or nothing happens. -/
def resume (s : Session) (k : Nat) : Session :=
  match s.waiting[k]? with
  | none => s
  | some w =>
    match s.ready[w.ready]? with
    | some .fulfilled => { s with waiting := s.waiting.eraseIdx k }.goesOn w.call
    | some .rejected => { s with waiting := s.waiting.eraseIdx k }.throws w.call
    | _ => s

/-! ## The kernel's messages -/

/-- No message has a UUID that the session has not made yet. -/
def knows (s : Session) : CommId → Bool
  | .uuid n => n < s.uuids
  | .kernel _ => true

def routeOpen (s : Session) (id : CommId) : Session :=
  if s.knows id ∧ s.comms.get id = none then s.register id else s

def routeMsg (s : Session) (id : CommId) : Session :=
  match s.comms.get id with
  | none => s
  | some comm => { s with objects := s.objects.modify comm Comm.receiveMessage }

def routeClose (s : Session) (id : CommId) : Session :=
  match s.comms.get id with
  | none => s
  | some comm =>
    { s with objects := s.objects.modify comm Comm.receiveClose, comms := s.comms.delete id }

/-! ## The session's ends -/

/-- `kernelExit`, and the socket's close. -/
def ends (s : Session) : Session :=
  let s := { s with link := false }
  if s.stopped then s else { s with dead := true }.closeAllComms

def restart (s : Session) : Session :=
  if s.stopped then s
  else { s.closeAllComms with dead := false, ready := s.ready ++ [.pending] }

def stop (s : Session) : Session :=
  if s.stopped then s else { s with stopped := true }.closeAllComms

/-- What `kill` and `disconnect` do. -/
def leave (s : Session) : Session :=
  if s.stopped then s else { s with stopped := true, link := false, wsClosed := true }

end Session

inductive Event where
  | openComm
  | send (comm : Nat)
  | close (comm : Nat)
  | resume (k : Nat)
  | commOpen (id : CommId)
  | commMsg (id : CommId)
  | commClose (id : CommId)
  /-- The latest connection is ready. -/
  | ready
  /-- One failed. -/
  | notReady (n : Nat)
  | kernelExit
  | connectionLost
  | restart
  | stop
  /-- The kernel has stopped, and the socket is closed. -/
  | stopDone
  | kill
  | disconnect
deriving DecidableEq

def step (s : Session) : Event → Session
  | .openComm => s.openComm
  | .send comm => s.sendOver comm
  | .close comm => s.close comm
  | .resume k => s.resume k
  | .commOpen id => s.routeOpen id
  | .commMsg id => s.routeMsg id
  | .commClose id => s.routeClose id
  | .ready =>
    if s.wsClosed ∨ s.ready.getLast? ≠ some .pending then s
    else { s with ready := s.ready.dropLast ++ [.fulfilled], link := true }
  | .notReady n =>
    if s.ready[n]? = some .pending then { s with ready := s.ready.set n .rejected } else s
  | .kernelExit | .connectionLost => s.ends
  | .restart => s.restart
  | .stop => s.stop
  | .stopDone => if s.stopped then { s with link := false, wsClosed := true } else s
  | .kill | .disconnect => s.leave

def machine : Transition.System Session Event := .ofFn {} step

/-! ## What is expected -/

/-- An owner's `close()` has not sent its request yet. -/
def Session.closing (s : Session) (comm : Nat) : Prop := ∃ w ∈ s.waiting, ∃ id, w.call = .close id comm

structure Lifecycle (s : Session) : Prop where
  /-- `close` is emitted once at most. -/
  atMostOnce : ∀ c ∈ s.objects, c.events.count .close ≤ 1
  /-- And is, once the comm or its session is over. -/
  once : ∀ i c, s.objects[i]? = some c → (c.isClosed = true ∧ ¬ s.closing i) ∨ s.isStopped = true →
    c.events.count .close = 1
  /-- A closed comm emits no message. -/
  silent : ∀ c ∈ s.objects, .message true ∉ c.events
  /-- The map has the comms that are not closed. -/
  listed : ∀ i c, s.objects[i]? = some c → (i ∈ s.comms.map Prod.snd ↔ c.isClosed = false)
  /-- What was reported closed is not opened. -/
  opened : ∀ id, .commOpen id true ∉ s.sent

/-- The events after which it still holds. -/
def Kept (s : Session) : Event → Bool
  | .openComm => !s.isStopped
  | .close comm => s.objects[comm]?.all Comm.isClosed
  | .resume k =>
    match s.waiting[k]? with
    | none => true
    | some w =>
      match s.ready[w.ready]?, w.call with
      | some .fulfilled, .openComm _ comm => !s.link || !s.reported comm
      | some .rejected, .openComm id _ => s.comms.get id = none
      | _, _ => true
  | .commOpen id => !s.isStopped || !s.knows id || (s.comms.get id).isSome
  | .kill | .disconnect => s.stopped || s.comms = []
  | _ => true

/-! ## The invariant -/

/-- A comm is open, in the map and not reported closed, or closed, not in it and reported once. -/
structure Good (comms : InsertionMap CommId Nat) (i : Nat) (c : Comm) : Prop where
  isOpen : c.isClosed = false → (c.id, i) ∈ comms ∧ .close ∉ c.events
  closed : c.isClosed = true → c.events.count .close = 1 ∧ ∀ id, (id, i) ∉ comms
  silent : .message true ∉ c.events

structure Inv (s : Session) : Prop where
  unique : s.comms.Unique
  mapped : ∀ id i, (id, i) ∈ s.comms → ∃ c, s.objects[i]? = some c ∧ c.id = id
  good : ∀ i c, s.objects[i]? = some c → Good s.comms i c
  ended : s.isStopped = true → s.comms = []
  waiting : ∀ w ∈ s.waiting, ∀ id i, w.call ≠ .close id i
  opened : ∀ id, .commOpen id true ∉ s.sent
  uuids : ∀ n i, (.uuid n, i) ∈ s.comms → n < s.uuids

section Invariant

variable {s : Session} {id : CommId} {comm : Nat}

theorem inv_init : Inv {} where
  unique := List.nodup_nil
  mapped _ _ h := absurd h List.not_mem_nil
  good i c h := by simp at h
  ended _ := rfl
  waiting _ h := absurd h List.not_mem_nil
  opened _ := List.not_mem_nil
  uuids _ _ h := absurd h List.not_mem_nil

/-- The comm in the map is open. -/
theorem Inv.mapped_open (h : Inv s) (hmem : (id, comm) ∈ s.comms) :
    ∃ c, s.objects[comm]? = some c ∧ c.id = id ∧ c.isClosed = false ∧ .close ∉ c.events := by
  obtain ⟨c, hc, hid⟩ := h.mapped id comm hmem
  have hgood := h.good comm c hc
  cases hclosed : c.isClosed with
  | false => exact ⟨c, hc, hid, hclosed, (hgood.isOpen hclosed).2⟩
  | true => exact absurd hmem ((hgood.closed hclosed).2 id)

theorem Inv.lifecycle (h : Inv s) : Lifecycle s := by
  have hcount : ∀ i (c : Comm), s.objects[i]? = some c → c.isClosed = false →
      c.events.count .close = 0 :=
    fun i c hc hopen => List.count_eq_zero.mpr ((h.good i c hc).isOpen hopen).2
  refine ⟨fun c hmem => ?_, fun i c hc hover => ?_, fun c hmem => ?_, fun i c hc => ?_, h.opened⟩
  · obtain ⟨i, hc⟩ := List.mem_iff_getElem?.mp hmem
    cases hclosed : c.isClosed with
    | false => rw [hcount i c hc hclosed]; exact Nat.zero_le 1
    | true => exact Nat.le_of_eq ((h.good i c hc).closed hclosed).1
  · cases hclosed : c.isClosed with
    | true => exact ((h.good i c hc).closed hclosed).1
    | false =>
      have hstopped : s.isStopped = true := hover.resolve_left fun hc => by simp [hclosed] at hc
      have hmem := ((h.good i c hc).isOpen hclosed).1
      rw [h.ended hstopped] at hmem
      cases hmem
  · obtain ⟨i, hc⟩ := List.mem_iff_getElem?.mp hmem
    exact (h.good i c hc).silent
  · constructor
    · intro hmem
      obtain ⟨⟨id, j⟩, hentry, rfl⟩ := List.mem_map.mp hmem
      obtain ⟨c', hc', -, hopen, -⟩ := h.mapped_open hentry
      obtain rfl := Option.some.inj (hc.symm.trans hc')
      exact hopen
    · exact fun hopen => List.mem_map_of_mem (f := Prod.snd) ((h.good i c hc).isOpen hopen).1

/-! ## Each event -/

/-- A new comm, under an id that is not in the map. -/
theorem Inv.register (h : Inv s) (hnew : ∀ i, (id, i) ∉ s.comms) (hgoing : s.isStopped = false)
    {uuids : Nat} (hle : s.uuids ≤ uuids) (hid : ∀ n, id = .uuid n → n < uuids) :
    Inv { s.register id with uuids } := by
  have hmem : ∀ p, p ∈ s.comms.set id s.objects.length ↔ p = (id, s.objects.length) ∨ p ∈ s.comms := by
    intro p
    rw [InsertionMap.mem_set]
    refine or_congr_right (and_iff_left_of_imp ?_)
    rintro hp rfl
    exact hnew p.2 hp
  have hfresh : ∀ id', (id', s.objects.length) ∉ s.comms := by
    intro id' hentry
    obtain ⟨c, hc, -⟩ := h.mapped _ _ hentry
    simp at hc
  refine ⟨h.unique.set _ _, fun id' i hentry => ?_, fun i c hc => ?_, fun hstopped => ?_, h.waiting,
    h.opened, fun n i hentry => ?_⟩
  · rcases (hmem _).mp hentry with heq | hentry
    · obtain ⟨rfl, rfl⟩ := Prod.mk.inj heq
      exact ⟨{ id := id' }, List.getElem?_concat_length, rfl⟩
    · obtain ⟨c, hc, hcid⟩ := h.mapped _ _ hentry
      exact ⟨c, Log.getElem?_old hc, hcid⟩
  · rcases Log.getElem?_snoc.mp hc with hc | ⟨rfl, rfl⟩
    · obtain ⟨hopen, hclosed, hsilent⟩ := h.good i c hc
      refine ⟨fun hno => ⟨(hmem _).mpr (.inr (hopen hno).1), (hopen hno).2⟩,
        fun hyes => ⟨(hclosed hyes).1, fun id' hentry => ?_⟩, hsilent⟩
      rcases (hmem _).mp hentry with heq | hentry
      · obtain ⟨-, rfl⟩ := Prod.mk.inj heq
        simp at hc
      · exact (hclosed hyes).2 id' hentry
    · exact ⟨fun _ => ⟨(hmem _).mpr (.inl rfl), List.not_mem_nil⟩,
        fun hyes => absurd hyes Bool.false_ne_true, List.not_mem_nil⟩
  · exact absurd (hgoing.symm.trans hstopped) Bool.false_ne_true
  · rcases (hmem _).mp hentry with heq | hentry
    · exact hid n (Prod.mk.inj heq).1.symm
    · exact Nat.lt_of_lt_of_le (h.uuids n i hentry) hle

/-- More calls that wait, none of them a `close()`. -/
theorem Inv.wait (h : Inv s) {call : Call} (hcall : ∀ id i, call ≠ .close id i) :
    Inv (s.wait call) := by
  refine ⟨h.unique, h.mapped, h.good, h.ended, fun w hw => ?_, h.opened, h.uuids⟩
  rcases List.mem_append.mp hw with hw | hw
  · exact h.waiting w hw
  · obtain rfl := List.mem_singleton.mp hw
    exact hcall

theorem Inv.openComm (h : Inv s) (hgoing : s.isStopped = false) : Inv s.openComm := by
  have hnew : ∀ i, (CommId.uuid s.uuids, i) ∉ s.comms := fun i hmem =>
    absurd (h.uuids _ _ hmem) (Nat.lt_irrefl _)
  refine (h.register hnew hgoing (Nat.le_succ _) fun n hn => ?_).wait nofun
  obtain rfl := CommId.uuid.inj hn
  exact Nat.lt_succ_self _

theorem Inv.routeOpen (h : Inv s) (hkept : Kept s (.commOpen id) = true) : Inv (s.routeOpen id) := by
  unfold Session.routeOpen
  split
  · rename_i hroute
    obtain ⟨hknown, hnone⟩ := hroute
    have hgoing : s.isStopped = false := by simpa [Kept, hknown, hnone] using hkept
    refine h.register (fun i hmem => ?_) hgoing (Nat.le_refl _) fun n hn => ?_
    · rw [InsertionMap.get_of_mem h.unique hmem] at hnone
      cases hnone
    · subst hn
      exact of_decide_eq_true hknown
  · exact h

theorem Inv.routeMsg (h : Inv s) : Inv (s.routeMsg id) := by
  unfold Session.routeMsg
  split
  · exact h
  · rename_i comm hget
    obtain ⟨c, hc, hid, hopen, hnone⟩ := h.mapped_open (InsertionMap.mem_of_get hget)
    refine ⟨h.unique, fun id' i hentry => ?_, fun i c' hc' => ?_, h.ended, h.waiting, h.opened, h.uuids⟩
    · obtain ⟨c', hc', hid'⟩ := h.mapped id' i hentry
      by_cases hi : comm = i
      · exact ⟨c'.receiveMessage, by simp [hi, hc'], hid'⟩
      · exact ⟨c', by simp [hi, hc'], hid'⟩
    · rw [List.getElem?_modify] at hc'
      by_cases hi : comm = i
      · subst hi
        simp only [hc, if_true, Option.map_eq_map, Option.map_some, Option.some.injEq] at hc'
        subst hc'
        obtain ⟨hisOpen, -, hsilent⟩ := h.good comm c hc
        refine ⟨fun _ => ⟨(hisOpen hopen).1, ?_⟩, fun hyes => ?_, ?_⟩
        · simpa [Comm.receiveMessage] using hnone
        · exact absurd (hopen.symm.trans hyes) Bool.false_ne_true
        · simpa [Comm.receiveMessage, hopen] using hsilent
      · simp only [hi, if_false, Option.map_eq_map, Option.map_id_fun', id_eq] at hc'
        exact h.good i c' hc'

/-- A comm that closes is reported, and leaves the map. -/
theorem Good.receiveClose {comms comms' : InsertionMap CommId Nat} {i : Nat} {c : Comm}
    (h : Good comms i c) (hgone : ∀ id, (id, i) ∉ comms') : Good comms' i c.receiveClose := by
  unfold Comm.receiveClose
  cases hclosed : c.isClosed with
  | false =>
    rw [if_neg Bool.false_ne_true]
    refine ⟨fun hno => absurd hno.symm Bool.false_ne_true, fun _ => ⟨?_, hgone⟩, ?_⟩
    · simp [Comm.emitClose, List.count_eq_zero.mpr (h.isOpen hclosed).2]
    · simpa [Comm.emitClose] using h.silent
  | true =>
    rw [if_pos rfl]
    exact ⟨fun hno => absurd (hno.symm.trans hclosed) Bool.false_ne_true,
      fun _ => ⟨(h.closed hclosed).1, hgone⟩, h.silent⟩

theorem Inv.routeClose (h : Inv s) : Inv (s.routeClose id) := by
  unfold Session.routeClose
  split
  · exact h
  · rename_i comm hget
    have hmem := InsertionMap.mem_of_get hget
    obtain ⟨c, hc, hid, -, -⟩ := h.mapped_open hmem
    have hgone : ∀ id', (id', comm) ∉ s.comms.delete id := by
      intro id' hentry
      obtain ⟨hentry, hne⟩ := InsertionMap.mem_delete.mp hentry
      obtain ⟨c', hc', hid'⟩ := h.mapped _ _ hentry
      obtain rfl := Option.some.inj (hc.symm.trans hc')
      exact hne (hid'.symm.trans hid)
    refine ⟨h.unique.delete id, fun id' i hentry => ?_, fun i c' hc' => ?_, fun hover => ?_, h.waiting,
      h.opened, fun n i hentry => h.uuids n i (InsertionMap.mem_delete.mp hentry).1⟩
    · have hne : comm ≠ i := fun hi => hgone id' (hi ▸ hentry)
      obtain ⟨c', hc', hid'⟩ := h.mapped id' i (InsertionMap.mem_delete.mp hentry).1
      exact ⟨c', by simp [hne, hc'], hid'⟩
    · rw [List.getElem?_modify] at hc'
      by_cases hi : comm = i
      · subst hi
        simp only [hc, if_true, Option.map_eq_map, Option.map_some, Option.some.injEq] at hc'
        subst hc'
        exact (h.good comm c hc).receiveClose hgone
      · simp only [hi, if_false, Option.map_eq_map, Option.map_id_fun', id_eq] at hc'
        obtain ⟨hopen, hclosed, hsilent⟩ := h.good i c' hc'
        refine ⟨fun hno => ⟨InsertionMap.mem_delete.mpr ⟨(hopen hno).1, fun heq => ?_⟩, (hopen hno).2⟩,
          fun hyes => ⟨(hclosed hyes).1, fun id' hentry => ?_⟩, hsilent⟩
        · -- one comm for each id
          have hother := InsertionMap.get_of_mem h.unique (hopen hno).1
          rw [show c'.id = id from heq, hget] at hother
          exact hi (Option.some.inj hother)
        · exact (hclosed hyes).2 id' (InsertionMap.mem_delete.mp hentry).1
    · rw [h.ended hover] at hmem
      cases hmem

theorem closeAll_objects (entries : InsertionMap CommId Nat) (objects : List Comm) (i : Nat) :
    (entries.foldl (fun objects entry => objects.modify entry.2 Comm.receiveClose) objects)[i]? =
      if i ∈ entries.map Prod.snd then objects[i]?.map Comm.receiveClose else objects[i]? := by
  have hidem : ∀ c : Comm, c.receiveClose.receiveClose = c.receiveClose := by
    intro c
    unfold Comm.receiveClose
    cases hclosed : c.isClosed <;> simp [hclosed, Comm.emitClose]
  induction entries generalizing objects with
  | nil => simp
  | cons entry entries ih =>
    rw [List.foldl_cons, ih, List.getElem?_modify]
    by_cases hi : entry.2 = i
    · simp only [hi, if_true, Option.map_eq_map, List.map_cons, List.mem_cons, true_or,
        Option.map_map]
      split
      · exact Option.map_congr fun c _ => hidem c
      · rfl
    · have hmem : i ∈ (entry :: entries).map Prod.snd ↔ i ∈ entries.map Prod.snd := by
        simp [Ne.symm hi]
      simp only [hi, if_false, hmem, Option.map_eq_map, Option.map_id_fun', id_eq]

/-- All comms are closed, and the map is empty. -/
theorem Inv.closeAllComms (h : Inv s) : Inv s.closeAllComms := by
  refine ⟨List.nodup_nil, fun _ _ hentry => absurd hentry List.not_mem_nil, fun i c hc => ?_,
    fun _ => rfl, h.waiting, h.opened, fun _ _ hentry => absurd hentry List.not_mem_nil⟩
  simp only [Session.closeAllComms, closeAll_objects] at hc
  split at hc
  · obtain ⟨c', hc', rfl⟩ := Option.map_eq_some_iff.mp hc
    exact (h.good i c' hc').receiveClose fun _ => List.not_mem_nil
  · rename_i hnone
    obtain ⟨hopen, hclosed, hsilent⟩ := h.good i c hc
    refine ⟨fun hno => ?_, fun hyes => ⟨(hclosed hyes).1, fun _ => List.not_mem_nil⟩, hsilent⟩
    exact absurd (List.mem_map_of_mem (f := Prod.snd) (hopen hno).1) hnone

/-- What the invariant does not speak of. -/
theorem Inv.frame {t : Session} (h : Inv s) (hobjects : t.objects = s.objects)
    (hcomms : t.comms = s.comms) (huuids : t.uuids = s.uuids) (hwaiting : t.waiting = s.waiting)
    (hsent : t.sent = s.sent) (hover : t.isStopped = true → s.comms = []) : Inv t where
  unique := hcomms ▸ h.unique
  mapped := by rw [hcomms, hobjects]; exact h.mapped
  good := by rw [hcomms, hobjects]; exact h.good
  ended := by rw [hcomms]; exact hover
  waiting := hwaiting ▸ h.waiting
  opened := hsent ▸ h.opened
  uuids := by rw [hcomms, huuids]; exact h.uuids

theorem Inv.ends (h : Inv s) : Inv s.ends := by
  unfold Session.ends
  dsimp only
  split
  · exact h.frame rfl rfl rfl rfl rfl h.ended
  · exact h.closeAllComms.frame rfl rfl rfl rfl rfl fun _ => rfl

theorem Inv.restart (h : Inv s) : Inv s.restart := by
  unfold Session.restart
  split
  · exact h
  · exact h.closeAllComms.frame rfl rfl rfl rfl rfl fun _ => rfl

theorem Inv.stop (h : Inv s) : Inv s.stop := by
  unfold Session.stop
  split
  · exact h
  · exact h.closeAllComms.frame rfl rfl rfl rfl rfl fun _ => rfl

theorem Inv.leave (h : Inv s) (hkept : (s.stopped || s.comms = []) = true) : Inv s.leave := by
  unfold Session.leave
  split
  · exact h
  · rename_i hstopped
    have hnone : s.comms = [] := by simpa [hstopped] using hkept
    exact h.frame rfl rfl rfl rfl rfl fun _ => hnone

theorem Inv.sends (h : Inv s) {request : Sent} (hrequest : ∀ id, request ≠ .commOpen id true) :
    Inv (s.send request) := by
  unfold Session.send
  split
  · refine ⟨h.unique, h.mapped, h.good, h.ended, h.waiting, fun id hmem => ?_, h.uuids⟩
    rcases List.mem_append.mp hmem with hmem | hmem
    · exact h.opened id hmem
    · exact hrequest id (List.mem_singleton.mp hmem).symm
  · exact h

theorem delete_of_get {comms : InsertionMap CommId Nat} (hunique : comms.Unique)
    (hget : comms.get id = none) : comms.delete id = comms := by
  refine List.filter_eq_self.mpr fun entry hentry => decide_eq_true fun heq => ?_
  subst heq
  rw [InsertionMap.get_of_mem hunique hentry] at hget
  cases hget

theorem Inv.resume (h : Inv s) {k : Nat} (hkept : Kept s (.resume k) = true) : Inv (s.resume k) := by
  unfold Session.resume
  cases hw : s.waiting[k]? with
  | none => exact h
  | some w =>
    have herase : Inv { s with waiting := s.waiting.eraseIdx k } :=
      ⟨h.unique, h.mapped, h.good, h.ended, fun w hw => h.waiting w (List.mem_of_mem_eraseIdx hw),
        h.opened, h.uuids⟩
    simp only [Kept, hw] at hkept
    cases hready : s.ready[w.ready]? with
    | none =>
      simp only [hready]
      exact h
    | some promise =>
      simp only [hready]
      cases hcall : w.call with
      | close id comm => exact absurd hcall (h.waiting w (List.mem_of_getElem? hw) id comm)
      | send id =>
        cases promise with
        | pending => exact h
        | fulfilled => exact herase.sends fun id' heq => by cases heq
        | rejected => exact herase
      | openComm id comm =>
        simp only [hready, hcall] at hkept
        cases promise with
        | pending => exact h
        | fulfilled =>
          simp only [Bool.or_eq_true, Bool.not_eq_true'] at hkept
          rcases hkept with hlink | hreported
          · have hsend : Session.send { s with waiting := s.waiting.eraseIdx k }
                (.commOpen id (s.reported comm)) = { s with waiting := s.waiting.eraseIdx k } := by
              simp [Session.send, hlink]
            have hsame : Inv (Session.send { s with waiting := s.waiting.eraseIdx k }
                (.commOpen id (s.reported comm))) := by
              rw [hsend]
              exact herase
            exact hsame
          · refine herase.sends fun id' heq => ?_
            have hyes : s.reported comm = true := (Sent.commOpen.inj heq).2
            exact absurd (hreported.symm.trans hyes) Bool.false_ne_true
        | rejected =>
          have hsame := delete_of_get h.unique (of_decide_eq_true hkept)
          exact herase.frame rfl hsame rfl rfl rfl h.ended

/-- **What an event keeps.** -/
theorem Inv.step (h : Inv s) {e : Event} (hkept : Kept s e = true) :
    Inv (CommLifecycle.step s e) := by
  cases e with
  | openComm => exact h.openComm (by simpa [Kept] using hkept)
  | send comm =>
    unfold CommLifecycle.step Session.sendOver
    dsimp only
    split
    · exact h
    · split
      · exact h
      · exact h.wait nofun
  | close comm =>
    unfold CommLifecycle.step Session.close
    dsimp only
    cases hc : s.objects[comm]? with
    | none => exact h
    | some c =>
      have hclosed : c.isClosed = true := by simpa [Kept, hc] using hkept
      simpa [hclosed] using h
  | resume k => exact h.resume hkept
  | commOpen id => exact h.routeOpen hkept
  | commMsg id => exact h.routeMsg
  | commClose id => exact h.routeClose
  | ready =>
    unfold CommLifecycle.step
    dsimp only
    split
    · exact h
    · exact h.frame rfl rfl rfl rfl rfl h.ended
  | notReady n =>
    unfold CommLifecycle.step
    dsimp only
    split
    · exact h.frame rfl rfl rfl rfl rfl h.ended
    · exact h
  | kernelExit | connectionLost => exact h.ends
  | restart => exact h.restart
  | stop => exact h.stop
  | stopDone =>
    unfold CommLifecycle.step
    dsimp only
    split
    · exact h.frame rfl rfl rfl rfl rfl h.ended
    · exact h
  | kill | disconnect => exact h.leave hkept

/-! ## What goes wrong -/

theorem Lifecycle.not_isStopped {t : Session} (h : Lifecycle t) {i : Nat} {c : Comm}
    (hc : t.objects[i]? = some c) (hnone : .close ∉ c.events) : t.isStopped = false := by
  by_contra hstopped
  have honce := h.once i c hc (.inr (by simpa using hstopped))
  rw [List.count_eq_zero.mpr hnone] at honce
  cases honce

/-- A comm that is opened once the session is over has no `close` to come. -/
theorem register_breaks (hstopped : s.isStopped = true) {t : Session}
    (hobjects : t.objects = (s.register id).objects) (hsame : t.isStopped = s.isStopped) :
    ¬ Lifecycle t := by
  intro h
  have hnew : t.objects[s.objects.length]? = some { id } := by
    rw [hobjects]
    exact List.getElem?_concat_length
  have hgoing := h.not_isStopped hnew List.not_mem_nil
  rw [hsame, hstopped] at hgoing
  cases hgoing

/-- The owner's `close()` leaves the comm in the map. -/
theorem Inv.close_breaks (h : Inv s) {c : Comm} (hc : s.objects[comm]? = some c)
    (hopen : c.isClosed = false) : ¬ Lifecycle (s.close comm) := by
  intro hlife
  have hstep : s.close comm = Session.wait
      { s with objects := s.objects.modify comm fun c => { c with isClosed := true } }
      (.close c.id comm) := by
    simp [Session.close, hc, hopen]
  rw [hstep] at hlife
  have hclosed : (s.objects.modify comm fun c => { c with isClosed := true })[comm]? =
      some { c with isClosed := true } := by
    simp [hc]
  have hlisted := (hlife.listed comm _ hclosed).mp
    (List.mem_map_of_mem (f := Prod.snd) ((h.good comm c hc).isOpen hopen).1)
  exact absurd hlisted.symm Bool.false_ne_true

/-- A session that is left has comms that are not told. -/
theorem Inv.leave_breaks (h : Inv s) (hgoing : s.stopped = false) (hsome : s.comms ≠ []) :
    ¬ Lifecycle s.leave := by
  intro hlife
  obtain ⟨⟨id, i⟩, rest, hcomms⟩ := List.exists_cons_of_ne_nil hsome
  have hmem : (id, i) ∈ s.comms := by simp [hcomms]
  obtain ⟨c, hc, -, -, hnone⟩ := h.mapped_open hmem
  have hstep : s.leave = { s with stopped := true, link := false, wsClosed := true } := by
    simp [Session.leave, hgoing]
  rw [hstep] at hlife
  exact absurd (hlife.not_isStopped hc hnone).symm Bool.false_ne_true

/-- A call that is given up takes its comm, still open, out of the map. -/
theorem Inv.delete_breaks (h : Inv s) (hget : s.comms.get id = some comm) {t : Session}
    (hobjects : t.objects = s.objects) (hcomms : t.comms = s.comms.delete id) : ¬ Lifecycle t := by
  intro hlife
  obtain ⟨c, hc, hid, hopen, -⟩ := h.mapped_open (InsertionMap.mem_of_get hget)
  have hlisted := (hlife.listed comm c (hobjects ▸ hc)).mpr hopen
  rw [hcomms] at hlisted
  obtain ⟨⟨id', i⟩, hentry, rfl⟩ := List.mem_map.mp hlisted
  obtain ⟨hentry, hne⟩ := InsertionMap.mem_delete.mp hentry
  obtain ⟨c', hc', hid'⟩ := h.mapped _ _ hentry
  obtain rfl := Option.some.inj (hc.symm.trans hc')
  exact hne (hid'.symm.trans hid)

theorem Inv.resume_breaks (h : Inv s) {k : Nat} (hkept : Kept s (.resume k) ≠ true) :
    ¬ Lifecycle (s.resume k) := by
  simp only [Kept] at hkept
  cases hw : s.waiting[k]? with
  | none => simp [hw] at hkept
  | some w =>
    cases hready : s.ready[w.ready]? with
    | none => simp [hw, hready] at hkept
    | some promise =>
      cases promise with
      | pending => simp [hw, hready] at hkept
      | fulfilled =>
        cases hcall : w.call with
        | send | close => simp [hw, hready, hcall] at hkept
        | openComm id comm =>
          simp only [hw, hready, hcall] at hkept
          rw [Ne, Bool.or_eq_true, Bool.not_eq_true', Bool.not_eq_true', not_or, Bool.not_eq_false,
            Bool.not_eq_false] at hkept
          intro hlife
          refine hlife.opened id ?_
          have hsent : (Session.resume s k).sent = s.sent ++ [.commOpen id true] := by
            simp only [Session.resume, hw, hready, hcall, Session.goesOn, Session.send, hkept.1, if_true]
            exact congrArg (fun reported => s.sent ++ [.commOpen id reported]) hkept.2
          rw [hsent]
          exact List.mem_append_right _ List.mem_cons_self
      | rejected =>
        cases hcall : w.call with
        | send | close => simp [hw, hready, hcall] at hkept
        | openComm id comm =>
          simp only [hw, hready, hcall] at hkept
          rw [Ne, decide_eq_true_eq] at hkept
          obtain ⟨i, hget⟩ := Option.ne_none_iff_exists'.mp hkept
          refine h.delete_breaks hget ?_ ?_ <;>
            simp [Session.resume, hw, hready, hcall, Session.throws]

/-- **What an event breaks.** -/
theorem Inv.breaks (h : Inv s) {e : Event} (hkept : Kept s e ≠ true) :
    ¬ Lifecycle (CommLifecycle.step s e) := by
  cases e with
  | openComm => exact @register_breaks s (.uuid s.uuids) (by simpa [Kept] using hkept) _ rfl rfl
  | close comm =>
    cases hc : s.objects[comm]? with
    | none => simp [Kept, hc] at hkept
    | some c => exact h.close_breaks hc (by simpa [Kept, hc] using hkept)
  | resume k => exact h.resume_breaks hkept
  | commOpen id =>
    rw [Kept, Ne, Bool.or_eq_true, Bool.or_eq_true, Bool.not_eq_true', Bool.not_eq_true',
      Option.isSome_iff_ne_none, not_or, not_or, Bool.not_eq_false, Bool.not_eq_false, not_not] at hkept
    obtain ⟨⟨hstopped, hknown⟩, hnone⟩ := hkept
    have hstep : CommLifecycle.step s (.commOpen id) = s.register id := if_pos ⟨hknown, hnone⟩
    rw [hstep]
    exact register_breaks hstopped rfl rfl
  | kill | disconnect =>
    rw [Kept, Ne, Bool.or_eq_true, decide_eq_true_eq, not_or, Bool.not_eq_true] at hkept
    exact h.leave_breaks hkept.1 hkept.2
  | send | commMsg | commClose | ready | notReady | kernelExit | connectionLost | restart | stop
  | stopDone => exact absurd rfl hkept

/-- **When comms are as they should**: all along a run, exactly if each of its events meets `Kept`. -/
theorem lifecycle_iff (events : List Event) :
    (∀ pre, pre <+: events → Lifecycle (pre.foldl step {})) ↔
      ∀ pre e, pre ++ [e] <+: events → Kept (pre.foldl step {}) e = true :=
  Transition.System.forall_prefix_iff inv_init (fun _ h => h.lifecycle) (fun _ _ h => h.step)
    (fun _ _ h => h.breaks) events

/-- The owner closes its comm, which the kernel then sends a message over. -/
def closedByOwner : List Event :=
  [.openComm, .ready, .resume 0, .close 0, .resume 0, .commMsg (.uuid 0)]

/-- A session is killed that has a comm. -/
def killed : List Event := [.openComm, .ready, .resume 0, .kill]

/-- A session is restarted in the same turn as a comm is opened. -/
def openedLate : List Event := [.ready, .openComm, .restart, .resume 0]

/-- **What goes wrong**: a closed comm is in the map and emits a message; one has no `close` when its
session is over; one is opened in the kernel after its `close`. -/
theorem comms_go_wrong :
    ((closedByOwner.foldl step {}).comms = [(.uuid 0, 0)] ∧
      (closedByOwner.foldl step {}).objects = [⟨.uuid 0, true, [.close, .message true]⟩] ∧
      ¬ Lifecycle (closedByOwner.foldl step {})) ∧
    ((killed.foldl step {}).objects = [⟨.uuid 0, false, []⟩] ∧
      (killed.foldl step {}).stopped = true ∧ ¬ Lifecycle (killed.foldl step {})) ∧
    (openedLate.foldl step {}).objects = [⟨.uuid 0, true, [.close]⟩] ∧
      (openedLate.foldl step {}).sent = [.commOpen (.uuid 0) true] ∧
      ¬ Lifecycle (openedLate.foldl step {}) := by
  refine ⟨⟨by decide, by decide, fun h => ?_⟩, ⟨by decide, by decide, fun h => ?_⟩, by decide, by decide,
    fun h => ?_⟩
  · exact h.silent ⟨.uuid 0, true, [.close, .message true]⟩ (by decide) (by decide)
  · exact absurd (h.once 0 ⟨.uuid 0, false, []⟩ (by decide) (.inr (by decide))) (by decide)
  · exact h.opened (.uuid 0) (by decide)

end Invariant

end Jovian.CommLifecycle
