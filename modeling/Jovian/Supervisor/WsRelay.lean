import Jovian.Lib.JsonText
import Jovian.Lib.Log
import Jovian.Supervisor.Access
import Jovian.Supervisor.Outbox

/-!
# Jovian — which connection has a session's callbacks (`WsRelay`)

A client opens a WebSocket for a session of its. The `Open` handler puts the connection's outbox into
the session's callbacks, over whatever connection had them; the `Close` handler takes them out, if
they are still its own. Which connection's they are is told by the address of its outbox, which
another outbox may get once the first is gone.

The handlers run on threads of the server, `Close` also on the outbox's own, where a send fails: it
may come while `Open` is still running. The callbacks are called on the session's threads, and only
ever changed under the lock they are called under. A step here is what one thread does under a lock,
or between two.

* **`callbacks_owned`** — in every run the callbacks are those of the newest connection as long as it
  is open, no other one's closing changes them, and a message goes to this connection or to none
  (`Owned`).
-/

namespace Jovian.WsRelay

open Transition (System)
open Percent (Bytes)
open Access (ascii)
open Outbox (Message newline)

/-! ## Frames -/

/-- The text of an object whose values are strings. -/
def frameText (members : List (String × String)) : Outbox.Text :=
  Access.utf8 (Json.dump (.object (members.map fun m => (m.1, .string m.2))))

theorem newline_of_mem_utf8EncodeChar {c : Char} (h : newline ∈ String.utf8EncodeChar c) :
    c.toNat = 10 := by
  by_cases hascii : c.toNat < 128
  · rw [Utf8.utf8EncodeChar_ascii hascii, List.mem_singleton] at h
    have hnat := congrArg UInt8.toNat h
    rw [UInt8.toNat_ofNat'] at hnat
    have hten : newline.toNat = 10 := rfl
    omega
  · have hle := Utf8.le_of_mem_utf8EncodeChar (Nat.not_lt.mp hascii) _ h
    exact absurd hle (by decide)

theorem no_number_moreMembers (members : List (String × String)) :
    ∀ t ∈ Json.moreMembers (members.map fun m => (m.1, .string m.2)), ∀ s, t ≠ .number s := by
  induction members with
  | nil => simp [Json.moreMembers]
  | cons m members ih =>
    simp only [List.map_cons, Json.moreMembers, Json.tokens, List.cons_append, List.nil_append,
      List.forall_mem_cons]
    exact ⟨by simp, by simp, by simp, by simp, ih⟩

theorem no_number_tokens (members : List (String × String)) :
    ∀ t ∈ Json.tokens (.object (members.map fun m => (m.1, .string m.2))), ∀ s, t ≠ .number s := by
  cases members with
  | nil => simp [Json.tokens]
  | cons m members =>
    have hmore := no_number_moreMembers members
    simp only [List.map_cons, Json.tokens, List.cons_append, List.nil_append, List.forall_mem_cons,
      List.forall_mem_append]
    exact ⟨by simp, by simp, by simp, by simp, hmore, by simp, by simp⟩

theorem frameText_ne_nil (members : List (String × String)) : frameText members ≠ [] := by
  have hne : ∀ c text, Access.utf8 (c :: text) ≠ [] := by
    intro c text h
    exact String.utf8EncodeChar_ne_nil (List.append_eq_nil_iff.mp h).1
  cases members with
  | nil => exact hne _ _
  | cons m members => exact hne _ _

theorem newline_notMem_frameText (members : List (String × String)) :
    newline ∉ frameText members := by
  intro h
  obtain ⟨c, hc, hbyte⟩ := List.mem_flatMap.mp h
  have hplain := Json.texts_plain (no_number_tokens members) c hc
  have hten := newline_of_mem_utf8EncodeChar hbyte
  omega

def frame (members : List (String × String)) : Message where
  text := frameText members
  ne_nil := frameText_ne_nil members
  one_line := newline_notMem_frameText members

def ready : Message := frame [("type", "ready")]
def kernelExit (reason : String) : Message := frame [("reason", reason), ("type", "kernelExit")]
def requestError (id error : String) : Message :=
  frame [("error", error), ("id", id), ("type", "requestError")]

/-! ## Sessions and connections -/

abbrev Address := Nat

/-- A session's callbacks: each pushes to a connection's outbox, as long as there is one. -/
structure Session where
  onMessage : Option Nat := none
  onKernelExit : Option Nat := none
  /-- What `callbackOwner` points to. -/
  callbackOwner : Option Address := none
deriving DecidableEq

/-- Where a connection's `Open` is. `session` is the session object that was found. -/
inductive Phase where
  | connected
  /-- Not accepted: it is told to close. -/
  | refused
  /-- Its outbox has been started; the session is looked up next. -/
  | accepted (sessionId : Bytes)
  /-- There is no such session: it is told to close. -/
  | unknown
  | found (session : Nat)
  /-- The callbacks are set; `ready` is pushed next. -/
  | installed (session : Nat)
  | opened (session : Nat)
deriving DecidableEq

/-- `state->session` -/
def Phase.session : Phase → Option Nat
  | .found k | .installed k | .opened k => some k
  | _ => none

/-- Where a connection's `Close` is. -/
inductive Closing where
  | none
  /-- The callbacks are not its own any more; the outbox is abandoned next. -/
  | cleared
  | done
deriving DecidableEq

structure Connection where
  phase : Phase := .connected
  /-- `state->outbox.get()` -/
  address : Option Address := none
  outbox : Outbox.State := {}
  closing : Closing := .none
deriving DecidableEq

/-- One message emitted: by which session, and how many were before it. -/
structure Emission where
  session : Nat
  number : Nat
deriving DecidableEq

/-- What has happened. -/
inductive Entry where
  /-- A connection has set a session's callbacks. -/
  | opened (session : Nat) (connection : Nat)
  /-- A connection's `Close` has come. -/
  | closed (connection : Nat)
  /-- A connection's outbox was pushed a message; whether it was emitted. -/
  | handed (connection : Nat) (emission : Option Emission) (m : Message)
deriving DecidableEq

structure State where
  /-- The registry's sessions. -/
  registry : Bytes → Option Nat := fun _ => none
  sessions : Nat → Session := fun _ => {}
  connections : Nat → Connection := fun _ => {}
  /-- The outboxes there are, by their address. -/
  heap : Address → Option Nat := fun _ => none
  emissions : Nat := 0
  log : List Entry := []

inductive Event where
  /-- A session object is put into the registry, or one is taken out. -/
  | register (sessionId : Bytes) (session : Option Nat)
  /-- A connection's `Open` comes; `address` is where its outbox would be. -/
  | open (connection : Nat) (headers : List (Bytes × Bytes)) (uri : Bytes) (address : Address)
  /-- Its `Open` goes on. -/
  | go (connection : Nat)
  /-- A request of its could not be sent. -/
  | requestError (connection : Nat) (id error : String)
  | close (connection : Nat)
  | abandon (connection : Nat)
  /-- The last of what keeps its outbox is gone. -/
  | free (connection : Nat)
  /-- Its outbox's thread goes on. -/
  | sender (connection : Nat) (unsent : Nat)
  | emitMessage (session : Nat) (m : Message)
  | emitKernelExit (session : Nat) (reason : String)

/-! ## The relay -/

/-- The value of the first header of that name, of any case. -/
def header (headers : List (Bytes × Bytes)) (name : Bytes) : Bytes :=
  ((headers.find? fun h => h.1.map Access.tolower = name.map Access.tolower).map Prod.snd).getD []

/-- `/sessions/<id>/messages`, with a slash behind it or not. -/
def extractSessionId (uri : Bytes) : Bytes :=
  match (Access.pathOf uri).splitOn Access.slash with
  | [[], sessions, id, messages] | [[], sessions, id, messages, []] =>
    if sessions = ascii "sessions" ∧ messages = ascii "messages" then id else []
  | _ => []

namespace State

def setConnection (s : State) (i : Nat) (c : Connection) : State :=
  { s with connections := Function.update s.connections i c }

def setPhase (s : State) (i : Nat) (phase : Phase) : State :=
  s.setConnection i { s.connections i with phase }

/-- What keeps a connection's outbox is still there. -/
def lives (s : State) (i : Nat) : Bool := (s.connections i).address.any fun a => s.heap a = some i

/-- `if (auto o = outbox.lock()) o->push(..)` -/
def push (s : State) (i : Nat) (emission : Option Emission) (m : Message) : State :=
  if s.lives i then
    { s.setConnection i { s.connections i with outbox := (s.connections i).outbox.push m } with
      log := s.log ++ [.handed i emission m] }
  else s

/-- `Open`, up to the start of the outbox. -/
def accept (token : Bytes) (s : State) (i : Nat) (headers : List (Bytes × Bytes)) (uri : Bytes)
    (address : Address) : State :=
  if (s.connections i).phase ≠ .connected ∨ s.heap address ≠ none then s
  else if Access.check (header headers (ascii "Origin")) (header headers (ascii "Authorization"))
      uri token ≠ .allowed then s.setPhase i .refused
  else
    { s.setConnection i
        { s.connections i with phase := .accepted (extractSessionId uri), address := some address } with
      heap := Function.update s.heap address (some i) }

/-- Under the session's lock. -/
def install (s : State) (i k : Nat) : State :=
  { s.setPhase i (.installed k) with
    sessions := Function.update s.sessions k
      { onMessage := some i, onKernelExit := some i, callbackOwner := (s.connections i).address }
    log := s.log ++ [.opened k i] }

def go (s : State) (i : Nat) : State :=
  match (s.connections i).phase with
  | .accepted sessionId =>
    match s.registry sessionId with
    | none => s.setPhase i .unknown
    | some k => s.setPhase i (.found k)
  | .found k => s.install i k
  | .installed k => (s.setPhase i (.opened k)).push i none ready
  | _ => s

/-- Under the session's lock, where there is one. -/
def clear (s : State) (i : Nat) : Option Nat → State
  | none => s
  | some k =>
    if (s.connections i).address ≠ none ∧
        (s.sessions k).callbackOwner = (s.connections i).address then
      { s with sessions := Function.update s.sessions k {} }
    else s

def close (s : State) (i : Nat) : State :=
  if (s.connections i).phase = .connected ∨ (s.connections i).closing ≠ .none then s
  else
    let t := s.clear i (s.connections i).phase.session
    { t.setConnection i { s.connections i with closing := .cleared } with
      log := s.log ++ [.closed i] }

def abandon (s : State) (i : Nat) : State :=
  if (s.connections i).closing ≠ .cleared then s
  else
    s.setConnection i
      { s.connections i with
        closing := .done
        outbox :=
          if (s.connections i).address = none then (s.connections i).outbox
          else (s.connections i).outbox.abandon }

/-- Its `Open` is through. -/
def through (s : State) (i : Nat) : Bool :=
  match (s.connections i).phase with
  | .unknown | .opened _ => true
  | _ => false

def free (s : State) (i : Nat) : State :=
  match (s.connections i).address with
  | none => s
  | some a =>
    if s.heap a = some i ∧ (s.connections i).closing = .done ∧ s.through i ∧
        (s.connections i).outbox.sender = .ended then
      { s with heap := Function.update s.heap a none }
    else s

def sender (s : State) (i unsent : Nat) : State :=
  if s.lives i then
    s.setConnection i { s.connections i with outbox := Outbox.run (s.connections i).outbox unsent }
  else s

/-- A callback is called, where one is set. -/
def emit (s : State) (k : Nat) (callback : Option Nat) (m : Message) : State :=
  let t := { s with emissions := s.emissions + 1 }
  match callback with
  | none => t
  | some i => t.push i (some ⟨k, s.emissions⟩) m

def emitMessage (s : State) (k : Nat) (m : Message) : State := s.emit k (s.sessions k).onMessage m

def emitKernelExit (s : State) (k : Nat) (reason : String) : State :=
  s.emit k (s.sessions k).onKernelExit (kernelExit reason)

/-- Only a connection that is bound to a session is told. -/
def requestError (s : State) (i : Nat) (id error : String) : State :=
  match (s.connections i).phase with
  | .opened _ => s.push i none (WsRelay.requestError id error)
  | _ => s

end State

def step (token : Bytes) (s : State) : Event → State
  | .register sessionId session =>
    { s with registry := Function.update s.registry sessionId session }
  | .open i headers uri address => s.accept token i headers uri address
  | .go i => s.go i
  | .requestError i id error => s.requestError i id error
  | .close i => s.close i
  | .abandon i => s.abandon i
  | .free i => s.free i
  | .sender i unsent => s.sender i unsent
  | .emitMessage k m => s.emitMessage k m
  | .emitKernelExit k reason => s.emitKernelExit k reason

/-- A supervisor whose access token is `token`. -/
def system (token : Bytes) : System State Event := System.ofFn {} (step token)

/-! ## The property -/

def Entry.opened? (k : Nat) : Entry → Option Nat
  | .opened k' i => if k' = k then some i else none
  | _ => none

def Entry.emission? : Entry → Option Emission
  | .handed _ emission _ => emission
  | _ => none

def Entry.handed? (i : Nat) : Entry → Option Message
  | .handed j _ m => if j = i then some m else none
  | _ => none

/-- The connection that has set a session's callbacks last. -/
def newest (log : List Entry) (k : Nat) : Option Nat := (log.filterMap (Entry.opened? k)).getLast?

/-- The emissions that went to a connection. -/
def emitted (log : List Entry) : List Emission := log.filterMap Entry.emission?

/-- What a connection's outbox was pushed. -/
def handedTo (i : Nat) (log : List Entry) : List Message := log.filterMap (Entry.handed? i)

/-- The callbacks, when they are the connection's. -/
def State.ofConnection (s : State) (i : Nat) : Session :=
  { onMessage := some i, onKernelExit := some i, callbackOwner := (s.connections i).address }

/-- **The callbacks are the newest connection's.** -/
structure Owned (token : Bytes) (s : State) : Prop where
  /-- As long as it is open. -/
  newest : ∀ k i, newest s.log k = some i → .closed i ∉ s.log → s.sessions k = s.ofConnection i
  /-- Both callbacks and their owner change together. -/
  together : ∀ k, s.sessions k = {} ∨ ∃ i, WsRelay.newest s.log k = some i ∧
    s.sessions k = s.ofConnection i ∧ (s.connections i).address ≠ none
  /-- Another connection's closing leaves them as they are. -/
  undisturbed : ∀ k i j, WsRelay.newest s.log k = some i → .closed i ∉ s.log → j ≠ i →
    (s.close j).sessions k = s.sessions k
  /-- What was emitted went to the newest connection. -/
  to_newest : ∀ pre i e m post, s.log = pre ++ .handed i (some e) m :: post →
    WsRelay.newest pre e.session = some i
  /-- One that had the callbacks is handed nothing emitted after its closing. -/
  quiet : ∀ pre i post, s.log = pre ++ .closed i :: post → (∃ k, .opened k i ∈ pre) →
    ∀ e m, .handed i (some e) m ∉ post
  /-- Once `Close` is through, nothing at all is put into its outbox. -/
  shut : ∀ i, (s.connections i).closing = .done → ∀ e,
    ((step token s e).connections i).outbox.pushed = (s.connections i).outbox.pushed
  /-- An emission goes to one connection, once. -/
  once : (emitted s.log).Nodup
  /-- A client reads what its outbox was handed, in order. -/
  read : ∀ i, (s.connections i).outbox.delivered <+: (handedTo i s.log).map Message.text

/-! ## The log -/

variable {log : List Entry} {entry : Entry} {i k : Nat}

theorem newest_snoc : newest (log ++ [entry]) k = (entry.opened? k).or (newest log k) := by
  unfold newest
  rw [List.filterMap_append, List.getLast?_append]
  cases h : entry.opened? k <;> simp [h]

theorem newest_snoc_of_none (h : entry.opened? k = none) :
    newest (log ++ [entry]) k = newest log k := by
  rw [newest_snoc, h, Option.none_or]

theorem mem_of_newest (h : newest log k = some i) : .opened k i ∈ log := by
  obtain ⟨entry, hentry, hopened⟩ := List.mem_filterMap.mp (List.mem_of_getLast? h)
  cases entry with
  | opened k' j =>
    obtain ⟨rfl, heq⟩ := Option.ite_none_right_eq_some.mp hopened
    cases heq
    exact hentry
  | _ => cases hopened

/-- It had the callbacks, and closed. -/
def Ended (log : List Entry) (i : Nat) : Prop :=
  ∃ pre post, log = pre ++ .closed i :: post ∧ ∃ k, .opened k i ∈ pre

theorem Ended.of_snoc (h : Ended (log ++ [entry]) i)
    (hentry : entry = .closed i → ∀ k, .opened k i ∉ log) : Ended log i := by
  obtain ⟨pre, post, hlog, k, hk⟩ := h
  rcases Log.split_snoc hlog with ⟨-, rfl, heq⟩ | ⟨post', -, hlog⟩
  · exact absurd hk (hentry heq.symm k)
  · exact ⟨pre, post', hlog, k, hk⟩

/-! ## The invariant -/

/-- `Open` has set the callbacks of a session. -/
def Phase.Opened (p : Phase) (k : Nat) : Prop := p = .installed k ∨ p = .opened k

/-- It has no outbox. -/
def Phase.Bare (p : Phase) : Prop := p = .connected ∨ p = .refused

/-- Who has which outbox. -/
structure Places (s : State) : Prop where
  address : ∀ i, (s.connections i).address = none ↔ (s.connections i).phase.Bare
  before : ∀ i, (s.connections i).phase = .connected → (s.connections i).closing = .none
  heap : ∀ a i, s.heap a = some i → (s.connections i).address = some a
  alive : ∀ i a, (s.connections i).address = some a → (s.connections i).closing ≠ .done →
    s.heap a = some i
  stopped : ∀ i, (s.connections i).closing = .done →
    (s.connections i).address = none ∨ (s.connections i).outbox.stopping = true

structure Inv (s : State) : Prop extends Places s where
  opened : ∀ k i, .opened k i ∈ s.log ↔ (s.connections i).phase.Opened k
  closed : ∀ i, .closed i ∈ s.log ↔ (s.connections i).closing ≠ .none
  /-- Without callbacks, the newest connection has closed; else they are its. -/
  holder : ∀ k,
    (s.sessions k = {} ∧ ∀ i, newest s.log k = some i → .closed i ∈ s.log) ∨
      ∃ i, newest s.log k = some i ∧ s.sessions k = s.ofConnection i
  current : ∀ k i, (s.sessions k).onMessage = some i → ¬ Ended s.log i
  quiet : ∀ pre i post, s.log = pre ++ .closed i :: post → (∃ k, .opened k i ∈ pre) →
    ∀ e m, .handed i (some e) m ∉ post
  to_newest : ∀ pre i e m post, s.log = pre ++ .handed i (some e) m :: post →
    newest pre e.session = some i
  numbers : ∀ e ∈ emitted s.log, e.number < s.emissions
  once : (emitted s.log).Nodup
  outbox : ∀ i, Outbox.system.Reachable (s.connections i).outbox
  pushed : ∀ i, (s.connections i).outbox.pushed <+: handedTo i s.log
  going : ∀ i, (s.connections i).outbox.stopping = false →
    (s.connections i).outbox.pushed = handedTo i s.log

variable {s t : State} {token : Bytes}

theorem inv_init : Inv {} where
  address i := iff_of_true rfl (.inl rfl)
  before i _ := rfl
  heap a i h := by cases h
  alive i a h := by cases h
  stopped i _ := .inl rfl
  opened k i := by
    refine iff_of_false List.not_mem_nil ?_
    rintro (h | h) <;> cases h
  closed i := iff_of_false List.not_mem_nil fun h => h rfl
  holder k := .inl ⟨rfl, fun i h => by cases h⟩
  current k i h := by cases h
  quiet pre i post h := by simp at h
  to_newest pre i e m post h := by simp at h
  numbers e h := by cases h
  once := List.nodup_nil
  outbox i := .init rfl
  pushed i := List.prefix_refl _
  going i _ := rfl

/-! ## Steps of one connection -/

@[simp] theorem connections_self (c : Connection) : (s.setConnection i c).connections i = c :=
  Function.update_self _ _ _

theorem connections_ne {j : Nat} (hj : j ≠ i) (c : Connection) :
    (s.setConnection i c).connections j = s.connections j :=
  Function.update_of_ne hj _ _

theorem ofConnection_congr (h : (t.connections i).address = (s.connections i).address) :
    t.ofConnection i = s.ofConnection i := by
  rw [State.ofConnection, h, State.ofConnection]

/-- `c` has the outbox that `d` has. -/
structure Near (c d : Connection) : Prop where
  address : c.address = d.address
  closing : c.closing = d.closing
  bare : c.phase.Bare ↔ d.phase.Bare
  before : c.phase = .connected → d.phase = .connected
  stopping : c.outbox.stopping = d.outbox.stopping

theorem Near.update {c : Connection} (hc : Near c (s.connections i)) (j : Nat) :
    Near ((s.setConnection i c).connections j) (s.connections j) := by
  by_cases hj : j = i
  · subst hj
    rw [connections_self]
    exact hc
  · rw [connections_ne hj]
    exact ⟨rfl, rfl, .rfl, id, rfl⟩

/-- It is where `d` is, as far as others can tell. -/
structure Alike (c d : Connection) : Prop extends Near c d where
  opened : ∀ k, c.phase.Opened k ↔ d.phase.Opened k

theorem Alike.update {c : Connection} (hc : Alike c (s.connections i)) (j : Nat) :
    Alike ((s.setConnection i c).connections j) (s.connections j) := by
  refine ⟨hc.toNear.update j, ?_⟩
  by_cases hj : j = i
  · subst hj
    rw [connections_self]
    exact hc.opened
  · rw [connections_ne hj]
    exact fun _ => .rfl

theorem Places.congr (hs : Places s) (hheap : t.heap = s.heap)
    (hall : ∀ i, Near (t.connections i) (s.connections i)) : Places t where
  address i := by
    rw [(hall i).address, (hall i).bare]
    exact hs.address i
  before i hi := by
    rw [(hall i).closing]
    exact hs.before i ((hall i).before hi)
  heap a i hi := by
    rw [(hall i).address]
    exact hs.heap a i (hheap ▸ hi)
  alive i a haddress hclosing := by
    rw [hheap]
    exact hs.alive i a ((hall i).address ▸ haddress) ((hall i).closing ▸ hclosing)
  stopped i hi := by
    rw [(hall i).address, (hall i).stopping]
    exact hs.stopped i ((hall i).closing ▸ hi)

/-- What an entry that is about nobody's callbacks adds to. -/
theorem Inv.holder_snoc (hs : Inv s) (hall : ∀ i, Near (t.connections i) (s.connections i))
    (hsessions : t.sessions k = s.sessions k) (hentry : entry.opened? k = none) :
    (t.sessions k = {} ∧ ∀ i, newest (s.log ++ [entry]) k = some i → .closed i ∈ s.log ++ [entry]) ∨
      ∃ i, newest (s.log ++ [entry]) k = some i ∧ t.sessions k = t.ofConnection i := by
  rw [newest_snoc_of_none hentry, hsessions]
  rcases hs.holder k with ⟨hnone, hclosed⟩ | ⟨i, hi, hsession⟩
  · exact .inl ⟨hnone, fun i hi => List.mem_append_left _ (hclosed i hi)⟩
  · exact .inr ⟨i, hi, hsession.trans (ofConnection_congr (hall i).address).symm⟩

/-- Its outbox takes and loses nothing. -/
theorem Inv.connection (hs : Inv s) {c : Connection} (hc : Alike c (s.connections i))
    (houtbox : Outbox.system.Reachable c.outbox)
    (hpushed : c.outbox.pushed = (s.connections i).outbox.pushed) : Inv (s.setConnection i c) := by
  have hall := hc.update
  have hsame : ∀ j, Outbox.system.Reachable ((s.setConnection i c).connections j).outbox ∧
      ((s.setConnection i c).connections j).outbox.pushed = (s.connections j).outbox.pushed := by
    intro j
    by_cases hj : j = i
    · subst hj
      rw [connections_self]
      exact ⟨houtbox, hpushed⟩
    · rw [connections_ne hj]
      exact ⟨hs.outbox j, rfl⟩
  refine ⟨hs.toPlaces.congr rfl fun j => (hall j).toNear, fun k j => ?_, fun j => ?_, fun k => ?_, hs.current, hs.quiet,
    hs.to_newest, hs.numbers, hs.once, fun j => (hsame j).1, fun j => ?_, fun j hj => ?_⟩
  · rw [(hall j).opened]
    exact hs.opened k j
  · rw [(hall j).closing]
    exact hs.closed j
  · refine (hs.holder k).imp_right fun ⟨j, hj, hsession⟩ => ⟨j, hj, ?_⟩
    exact hsession.trans (ofConnection_congr (hall j).address).symm
  · rw [(hsame j).2]
    exact hs.pushed j
  · rw [(hsame j).2]
    exact hs.going j ((hall j).stopping ▸ hj)

/-- `Open` goes on, before it sets the callbacks or after. -/
theorem Inv.setPhase (hs : Inv s) {phase : Phase} (hne : phase ≠ .connected)
    (hbare : phase.Bare ↔ (s.connections i).phase.Bare)
    (hopened : ∀ k, phase.Opened k ↔ (s.connections i).phase.Opened k) :
    Inv (s.setPhase i phase) :=
  hs.connection ⟨⟨rfl, rfl, hbare, fun h => absurd h hne, rfl⟩, hopened⟩ (hs.outbox i) rfl

theorem Inv.sender (hs : Inv s) (unsent : Nat) : Inv (s.sender i unsent) := by
  unfold State.sender
  split
  · obtain ⟨hstopping, -, hpushed⟩ := Outbox.run_frame (s.connections i).outbox unsent
    refine hs.connection ⟨⟨rfl, rfl, .rfl, id, hstopping⟩, fun _ => .rfl⟩ ?_ hpushed
    exact .step (e := .sender unsent) (hs.outbox i) rfl
  · exact hs

/-! ## Messages -/

theorem pushed_push (outbox : Outbox.State) (m : Message) :
    (outbox.push m).stopping = outbox.stopping ∧
      (outbox.push m).pushed = if outbox.stopping then outbox.pushed else outbox.pushed ++ [m] := by
  unfold Outbox.State.push
  split <;> simp_all

theorem handedTo_snoc (j : Nat) (emission : Option Emission) (m : Message) :
    handedTo j (log ++ [.handed i emission m]) =
      if i = j then handedTo j log ++ [m] else handedTo j log := by
  unfold handedTo
  rw [List.filterMap_append]
  by_cases h : i = j <;> simp [Entry.handed?, h]

theorem emitted_snoc (emission : Option Emission) (m : Message) :
    emitted (log ++ [.handed i emission m]) = emitted log ++ emission.toList := by
  unfold emitted
  rw [List.filterMap_append]
  cases emission <;> simp [Entry.emission?]

/-- It is pushed a message: its own, or one emitted by the session whose newest connection it is. -/
theorem Inv.push (hs : Inv s) (emission : Option Emission) (m : Message)
    (hemission : ∀ e ∈ emission, e.number < s.emissions ∧ e ∉ emitted s.log ∧
      newest s.log e.session = some i ∧ ¬ Ended s.log i) : Inv (s.push i emission m) := by
  unfold State.push
  split
  case isFalse => exact hs
  obtain ⟨hstopping, hpushed⟩ := pushed_push (s.connections i).outbox m
  set c : Connection := { s.connections i with outbox := (s.connections i).outbox.push m } with hc
  have hall : ∀ j, Alike ((s.setConnection i c).connections j) (s.connections j) :=
    Alike.update ⟨⟨rfl, rfl, .rfl, id, hstopping⟩, fun _ => .rfl⟩
  constructor
  case toPlaces => exact hs.toPlaces.congr rfl fun j => (hall j).toNear
  case opened =>
    intro k j
    rw [(hall j).opened, ← hs.opened]
    simp
  case closed =>
    intro j
    rw [(hall j).closing, ← hs.closed]
    simp
  case holder => exact fun k => hs.holder_snoc (fun j => (hall j).toNear) rfl rfl
  case current =>
    intro k j hj hended
    exact hs.current k j hj (hended.of_snoc fun h => by cases h)
  case quiet =>
    intro pre j post hlog hopened e m' hmem
    obtain ⟨post', rfl, hlog'⟩ := Log.split_snoc_of_ne (by simp) hlog
    rcases List.mem_append.mp hmem with hmem | hmem
    · exact hs.quiet pre j post' hlog' hopened e m' hmem
    · -- the entry itself: whoever is handed it has not closed
      obtain ⟨rfl, rfl, -⟩ : j = i ∧ some e = emission ∧ m' = m := by
        simpa using hmem
      exact (hemission e rfl).2.2.2 ⟨pre, post', hlog', hopened⟩
  case to_newest =>
    intro pre j e m' post hlog
    rcases Log.split_snoc hlog with ⟨-, rfl, heq⟩ | ⟨post', -, hlog'⟩
    · cases heq
      exact (hemission e rfl).2.2.1
    · exact hs.to_newest pre j e m' post' hlog'
  case numbers =>
    intro e he
    rcases List.mem_append.mp (emitted_snoc emission m ▸ he) with he | he
    · exact hs.numbers e he
    · exact (hemission e (by simpa using he)).1
  case once =>
    show (emitted (s.log ++ [_])).Nodup
    rw [emitted_snoc]
    have hone : emission.toList.Nodup := by cases emission <;> simp
    refine List.nodup_append.mpr ⟨hs.once, hone, fun e he e' he' heq => ?_⟩
    exact (hemission e' (by simpa using he')).2.1 (heq ▸ he)
  case outbox =>
    intro j
    by_cases hj : j = i
    · subst hj
      rw [connections_self]
      exact .step (e := .push m) (hs.outbox j) rfl
    · rw [connections_ne hj]
      exact hs.outbox j
  case pushed =>
    intro j
    by_cases hj : j = i
    · subst hj
      rw [connections_self, handedTo_snoc, if_pos rfl, hc, hpushed]
      split
      · exact (hs.pushed j).trans (List.prefix_append _ _)
      · rename_i hgoing
        rw [hs.going j (eq_false_of_ne_true hgoing)]
    · rw [connections_ne hj, handedTo_snoc, if_neg fun h => hj h.symm]
      exact hs.pushed j
  case going =>
    intro j hgoing
    rw [(hall j).stopping] at hgoing
    by_cases hj : j = i
    · subst hj
      rw [connections_self, handedTo_snoc, if_pos rfl, hc, hpushed, hgoing, ← hs.going j hgoing]
      rfl
    · rw [connections_ne hj, handedTo_snoc, if_neg fun h => hj h.symm]
      exact hs.going j hgoing

theorem newest_of_onMessage (hs : Inv s) (h : (s.sessions k).onMessage = some i) :
    newest s.log k = some i := by
  rcases hs.holder k with ⟨hnone, -⟩ | ⟨j, hj, hsession⟩
  · rw [hnone] at h
    cases h
  · rw [hsession] at h
    cases h
    exact hj

theorem onKernelExit_eq (hs : Inv s) (k : Nat) :
    (s.sessions k).onKernelExit = (s.sessions k).onMessage := by
  rcases hs.holder k with ⟨h, -⟩ | ⟨j, -, h⟩ <;> rw [h]
  rfl

theorem Inv.emit (hs : Inv s) (k : Nat) (m : Message) :
    Inv (s.emit k (s.sessions k).onMessage m) := by
  have hcounted : Inv { s with emissions := s.emissions + 1 } :=
    { hs with numbers := fun e he => Nat.lt_succ_of_lt (hs.numbers e he) }
  unfold State.emit
  cases hcallback : (s.sessions k).onMessage with
  | none => exact hcounted
  | some i =>
    have hnewest := newest_of_onMessage hs hcallback
    refine hcounted.push _ m fun e he => ?_
    obtain rfl : e = ⟨k, s.emissions⟩ := by simpa [eq_comm] using he
    refine ⟨Nat.lt_succ_self _, fun hmem => ?_, hnewest, ?_⟩
    · exact absurd (hs.numbers _ hmem) (Nat.lt_irrefl _)
    · exact hs.current k i hcallback

theorem Inv.emitKernelExit (hs : Inv s) (k : Nat) (reason : String) :
    Inv (s.emitKernelExit k reason) := by
  unfold State.emitKernelExit
  rw [onKernelExit_eq hs]
  exact hs.emit k _

theorem Inv.requestError (hs : Inv s) (id error : String) : Inv (s.requestError i id error) := by
  unfold State.requestError
  split
  · exact hs.push none _ fun e he => by cases he
  · exact hs

/-! ## Opening -/

theorem Inv.not_opened (hs : Inv s) (hphase : ∀ k, ¬ (s.connections i).phase.Opened k) :
    ∀ k, .opened k i ∉ s.log :=
  fun k h => hphase k ((hs.opened k i).mp h)

/-- An outbox is started, where there is none. -/
theorem Places.start (hs : Places s) {c : Connection} {address : Address}
    (hheap : s.heap address = none) (hnone : (s.connections i).address = none)
    (haddress : c.address = some address) (hbare : ¬ c.phase.Bare) (hclosing : c.closing = .none) :
    Places { s.setConnection i c with heap := Function.update s.heap address (some i) } where
  address j := by
    by_cases hj : j = i
    · subst hj
      rw [connections_self, haddress]
      exact iff_of_false (by simp) hbare
    · rw [connections_ne hj]
      exact hs.address j
  before j := by
    by_cases hj : j = i
    · subst hj
      rw [connections_self]
      exact fun _ => hclosing
    · rw [connections_ne hj]
      exact hs.before j
  heap a j hj := by
    by_cases ha : a = address
    · subst ha
      obtain rfl : i = j := by simpa using hj
      rw [connections_self]
      exact haddress
    · have hold := hs.heap a j (by simpa [Function.update_of_ne ha] using hj)
      have hne : j ≠ i := by
        rintro rfl
        cases hnone.symm.trans hold
      rw [connections_ne hne]
      exact hold
  alive j a := by
    by_cases hj : j = i
    · subst hj
      rw [connections_self, haddress]
      rintro ha -
      cases ha
      exact Function.update_self _ _ _
    · rw [connections_ne hj]
      intro ha hopen
      have hold := hs.alive j a ha hopen
      have hne : a ≠ address := by
        rintro rfl
        cases hheap.symm.trans hold
      exact (Function.update_of_ne hne _ _).trans hold
  stopped j := by
    by_cases hj : j = i
    · subst hj
      rw [connections_self, hclosing]
      intro h
      cases h
    · rw [connections_ne hj]
      exact hs.stopped j

theorem Inv.accept (hs : Inv s) (headers : List (Bytes × Bytes)) (uri : Bytes) (address : Address) :
    Inv (s.accept token i headers uri address) := by
  unfold State.accept
  split
  case isTrue => exact hs
  rename_i hfree
  obtain ⟨hphase, hheap⟩ : (s.connections i).phase = .connected ∧ s.heap address = none := by
    simpa using hfree
  split
  · refine hs.setPhase (by simp) ?_ fun k => ?_ <;> rw [hphase]
    · simp [Phase.Bare]
    · simp [Phase.Opened]
  have hclosing := hs.before i hphase
  have hnone : (s.connections i).address = none := (hs.address i).mpr (.inl hphase)
  have hnot : ∀ k, ¬ (s.connections i).phase.Opened k := by
    intro k
    rw [hphase]
    simp [Phase.Opened]
  set c : Connection := { s.connections i with
    phase := .accepted (extractSessionId uri), address := some address } with hc
  have hsame : ∀ j, ((s.setConnection i c).connections j).closing = (s.connections j).closing ∧
      ((s.setConnection i c).connections j).outbox = (s.connections j).outbox ∧
      ∀ k, ((s.setConnection i c).connections j).phase.Opened k ↔
        (s.connections j).phase.Opened k := by
    intro j
    by_cases hj : j = i
    · subst hj
      rw [connections_self]
      exact ⟨rfl, rfl, fun k => iff_of_false (by simp [hc, Phase.Opened]) (hnot k)⟩
    · rw [connections_ne hj]
      exact ⟨rfl, rfl, fun _ => .rfl⟩
  refine ⟨hs.toPlaces.start hheap hnone rfl (by simp [hc, Phase.Bare]) hclosing, fun k j => ?_,
    fun j => ?_, fun k => ?_, hs.current, hs.quiet, hs.to_newest, hs.numbers, hs.once, fun j => ?_,
    fun j => ?_, fun j => ?_⟩
  · exact (hs.opened k j).trans ((hsame j).2.2 k).symm
  · rw [(hsame j).1]
    exact hs.closed j
  · refine (hs.holder k).imp_right fun ⟨j, hj, hsession⟩ => ⟨j, hj, ?_⟩
    -- one that has the callbacks is not opening
    have hne : j ≠ i := by
      rintro rfl
      exact hnot k ((hs.opened k j).mp (mem_of_newest hj))
    refine hsession.trans (ofConnection_congr ?_).symm
    rw [connections_ne hne]
  · rw [(hsame j).2.1]
    exact hs.outbox j
  · rw [(hsame j).2.1]
    exact hs.pushed j
  · rw [(hsame j).2.1]
    exact hs.going j

/-- An entry that hands nothing over. -/
theorem emitted_snoc_of_none (h : entry.emission? = none) :
    emitted (log ++ [entry]) = emitted log := by
  rw [emitted, List.filterMap_append]
  simp [h, emitted]

theorem handedTo_snoc_of_none (h : entry.handed? i = none) :
    handedTo i (log ++ [entry]) = handedTo i log := by
  rw [handedTo, List.filterMap_append]
  simp [h, handedTo]

/-- The callbacks are set. -/
theorem Inv.install (hs : Inv s) (hphase : (s.connections i).phase = .found k) :
    Inv (s.install i k) := by
  have hnot : ∀ k, .opened k i ∉ s.log := by
    refine hs.not_opened fun k => ?_
    rw [hphase]
    simp [Phase.Opened]
  set c : Connection := { s.connections i with phase := .installed k } with hc
  have hnear : ∀ j, Near ((s.setConnection i c).connections j) (s.connections j) := by
    refine Near.update ⟨rfl, rfl, ?_, fun h => (by cases h), rfl⟩
    rw [hphase]
    simp [hc, Phase.Bare]
  have houtbox : ∀ j, ((s.setConnection i c).connections j).outbox = (s.connections j).outbox := by
    intro j
    by_cases hj : j = i
    · subst hj
      rw [connections_self]
    · rw [connections_ne hj]
  have hended : ∀ j, Ended (s.log ++ [.opened k i]) j → Ended s.log j :=
    fun j h => h.of_snoc fun h => by cases h
  have hemitted : emitted (s.log ++ [.opened k i]) = emitted s.log := emitted_snoc_of_none rfl
  constructor
  case toPlaces => exact hs.toPlaces.congr rfl hnear
  case opened =>
    intro k' j
    show _ ∈ s.log ++ [_] ↔ ((s.setConnection i c).connections j).phase.Opened k'
    by_cases hj : j = i
    · subst hj
      rw [connections_self, List.mem_append]
      simp [hc, Phase.Opened, hnot, eq_comm]
    · rw [connections_ne hj, ← hs.opened]
      simp [hj]
  case closed =>
    intro j
    show _ ∈ s.log ++ [_] ↔ ((s.setConnection i c).connections j).closing ≠ _
    rw [(hnear j).closing, ← hs.closed]
    simp
  case holder =>
    intro k'
    by_cases hk : k' = k
    · subst hk
      refine .inr ⟨i, ?_, ?_⟩
      · show newest (s.log ++ [_]) k' = _
        rw [newest_snoc, Entry.opened?, if_pos rfl, Option.some_or]
      · refine (Function.update_self _ _ _).trans ?_
        exact (ofConnection_congr (t := s.install i k') (hnear i).address).symm
    · refine hs.holder_snoc hnear (Function.update_of_ne hk _ _) ?_
      exact if_neg fun h => hk h.symm
  case current =>
    intro k' j hj
    by_cases hk : k' = k
    · subst hk
      obtain rfl : i = j := by simpa [State.install] using hj
      intro h
      obtain ⟨pre, post, hlog, k'', hmem⟩ := hended i h
      exact hnot k'' (hlog ▸ List.mem_append_left _ hmem)
    · intro h
      refine hs.current k' j ?_ (hended j h)
      rw [← hj]
      exact congrArg Session.onMessage (Function.update_of_ne hk _ _).symm
  case quiet =>
    intro pre j post hlog hopened e m hmem
    obtain ⟨post', rfl, hlog'⟩ := Log.split_snoc_of_ne (by simp) hlog
    refine hs.quiet pre j post' hlog' hopened e m ?_
    simpa using hmem
  case to_newest =>
    intro pre j e m post hlog
    obtain ⟨post', -, hlog'⟩ := Log.split_snoc_of_ne (by simp) hlog
    exact hs.to_newest pre j e m post' hlog'
  case numbers =>
    intro e he
    exact hs.numbers e (hemitted ▸ he)
  case once => exact hemitted.symm ▸ hs.once
  case outbox =>
    intro j
    show Outbox.system.Reachable ((s.setConnection i c).connections j).outbox
    rw [houtbox]
    exact hs.outbox j
  case pushed =>
    intro j
    show ((s.setConnection i c).connections j).outbox.pushed <+: handedTo j (s.log ++ [_])
    rw [houtbox, handedTo_snoc_of_none rfl]
    exact hs.pushed j
  case going =>
    intro j
    show ((s.setConnection i c).connections j).outbox.stopping = false →
      ((s.setConnection i c).connections j).outbox.pushed = handedTo j (s.log ++ [_])
    rw [houtbox, handedTo_snoc_of_none rfl]
    exact hs.going j

theorem Inv.go (hs : Inv s) : Inv (s.go i) := by
  unfold State.go
  split
  case h_1 sessionId hphase =>
    split
    · refine hs.setPhase (by simp) ?_ fun k => ?_ <;> rw [hphase] <;>
        simp [Phase.Bare, Phase.Opened]
    · refine hs.setPhase (by simp) ?_ fun k => ?_ <;> rw [hphase] <;>
        simp [Phase.Bare, Phase.Opened]
  case h_2 k hphase => exact hs.install hphase
  case h_3 k hphase =>
    have hopened : Inv (s.setPhase i (.opened k)) := by
      refine hs.setPhase (by simp) ?_ fun k' => ?_ <;> rw [hphase] <;>
        simp [Phase.Bare, Phase.Opened]
    exact hopened.push none _ fun e he => by cases he
  case h_4 => exact hs

/-! ## Closing -/

/-- `Close` goes on. -/
theorem Places.closing (hs : Places s) {c : Connection}
    (haddress : c.address = (s.connections i).address)
    (hphase : c.phase = (s.connections i).phase) (hbegun : c.phase ≠ .connected)
    (hopen : c.closing ≠ .done → (s.connections i).closing ≠ .done)
    (hstopped : c.closing = .done → c.address = none ∨ c.outbox.stopping = true) :
    Places (s.setConnection i c) where
  address j := by
    by_cases hj : j = i
    · subst hj
      rw [connections_self, haddress, hphase]
      exact hs.address j
    · rw [connections_ne hj]
      exact hs.address j
  before j := by
    by_cases hj : j = i
    · subst hj
      rw [connections_self]
      exact fun h => absurd h hbegun
    · rw [connections_ne hj]
      exact hs.before j
  heap a j hj := by
    by_cases hji : j = i
    · subst hji
      rw [connections_self, haddress]
      exact hs.heap a j hj
    · rw [connections_ne hji]
      exact hs.heap a j hj
  alive j a := by
    by_cases hj : j = i
    · subst hj
      rw [connections_self, haddress]
      exact fun ha hclosing => hs.alive j a ha (hopen hclosing)
    · rw [connections_ne hj]
      exact hs.alive j a
  stopped j := by
    by_cases hj : j = i
    · subst hj
      rw [connections_self]
      exact hstopped
    · rw [connections_ne hj]
      exact hs.stopped j

theorem Places.of_eq (hs : Places s) (hconnections : t.connections = s.connections)
    (hheap : t.heap = s.heap) : Places t := by
  refine hs.congr hheap fun j => ?_
  rw [hconnections]
  exact ⟨rfl, rfl, .rfl, id, rfl⟩

theorem sessions_clear (p : Option Nat) : (s.clear i p).sessions k =
    if p = some k ∧ (s.connections i).address ≠ none ∧
      (s.sessions k).callbackOwner = (s.connections i).address then {} else s.sessions k := by
  unfold State.clear
  cases p with
  | none => simp
  | some k' =>
    by_cases hk : k' = k
    · subst hk
      dsimp only
      split <;> simp_all
    · dsimp only
      split <;> simp [hk, Function.update_of_ne fun h : k = k' => hk h.symm]

theorem clear_frame (p : Option Nat) : (s.clear i p).connections = s.connections ∧
    (s.clear i p).heap = s.heap ∧ (s.clear i p).emissions = s.emissions := by
  unfold State.clear
  split
  · exact ⟨rfl, rfl, rfl⟩
  · split <;> exact ⟨rfl, rfl, rfl⟩

theorem session_of_opened {p : Phase} (h : p.Opened k) : p.session = some k := by
  rcases h with rfl | rfl <;> rfl

/-- Two outboxes that are not abandoned are in two places. -/
theorem Places.eq_of_address (hs : Places s) {j : Nat} {a : Address}
    (hi : (s.connections i).address = some a) (hj : (s.connections j).address = some a)
    (hopeni : (s.connections i).closing ≠ .done) (hopenj : (s.connections j).closing ≠ .done) :
    i = j := by
  have heap := (hs.alive i a hi hopeni).symm.trans (hs.alive j a hj hopenj)
  exact Option.some.inj heap

/-- The owner's closing takes the callbacks out. -/
theorem Inv.cleared (hs : Inv s) (hcallback : (s.sessions k).onMessage = some i) :
    (s.clear i (s.connections i).phase.session).sessions k = {} := by
  rw [sessions_clear, if_pos]
  have hnewest := newest_of_onMessage hs hcallback
  have hphase := (hs.opened k i).mp (mem_of_newest hnewest)
  rcases hs.holder k with ⟨hnone, -⟩ | ⟨j, hj, hsession⟩
  · rw [hnone] at hcallback
    cases hcallback
  · obtain rfl : j = i := Option.some.inj (hj.symm.trans hnewest)
    refine ⟨session_of_opened hphase, fun hnone => ?_, by rw [hsession]; rfl⟩
    rcases hphase with hphase | hphase
    all_goals
      have hbare := (hs.address j).mp hnone
      rw [hphase] at hbare
      rcases hbare with h | h <;> cases h

/-- What the closing of a connection leaves of a session's callbacks. -/
theorem Inv.clear_holder (hs : Inv s) (hgoing : (s.connections i).closing = .none) {p : Option Nat} :
    ((s.clear i p).sessions k = {} ∧
      ∀ j, newest s.log k = some j → .closed j ∈ s.log ∨ j = i) ∨
      ∃ j, newest s.log k = some j ∧ (s.clear i p).sessions k = s.ofConnection j := by
  rw [sessions_clear]
  split
  case isFalse =>
    refine (hs.holder k).imp_left fun h => ⟨h.1, fun j hj => .inl (h.2 j hj)⟩
  rename_i hclear
  obtain ⟨-, haddress, howner⟩ := hclear
  obtain ⟨a, ha⟩ := Option.ne_none_iff_exists'.mp haddress
  refine .inl ⟨rfl, fun j hj => ?_⟩
  rcases hs.holder k with ⟨hnone, -⟩ | ⟨j', hj', hsession⟩
  · rw [hnone, ha] at howner
    cases howner
  · obtain rfl : j' = j := Option.some.inj (hj'.symm.trans hj)
    rw [hsession, ha] at howner
    -- the address is the closing connection's own, or its former holder is gone
    by_cases hdone : (s.connections j').closing = .done
    · refine .inl ((hs.closed j').mpr ?_)
      rw [hdone]
      exact fun h => by cases h
    · refine .inr (hs.eq_of_address howner ha hdone ?_)
      rw [hgoing]
      exact fun h => by cases h

theorem Inv.close (hs : Inv s) : Inv (s.close i) := by
  unfold State.close
  split
  case isTrue => exact hs
  rename_i hguard
  obtain ⟨hbegun, hgoing⟩ : (s.connections i).phase ≠ .connected ∧
      (s.connections i).closing = .none := by simpa using hguard
  obtain ⟨hconnections, hheap, hemissions⟩ :=
    clear_frame (s := s) (i := i) (s.connections i).phase.session
  set c : Connection := { s.connections i with closing := .cleared } with hc
  have hsame : ∀ j, ((s.setConnection i c).connections j).outbox = (s.connections j).outbox ∧
      ((s.setConnection i c).connections j).phase = (s.connections j).phase ∧
      ((s.setConnection i c).connections j).address = (s.connections j).address := by
    intro j
    by_cases hj : j = i
    · subst hj
      rw [connections_self]
      exact ⟨rfl, rfl, rfl⟩
    · rw [connections_ne hj]
      exact ⟨rfl, rfl, rfl⟩
  have hset : ((s.clear i (s.connections i).phase.session).setConnection i c).connections =
      (s.setConnection i c).connections := by
    rw [State.setConnection, State.setConnection, hconnections]
  have hemitted : emitted (s.log ++ [.closed i]) = emitted s.log := emitted_snoc_of_none rfl
  have hplaces : Places (s.setConnection i c) := by
    refine hs.toPlaces.closing rfl rfl hbegun (fun _ => ?_) fun h => by cases h
    rw [hgoing]
    exact fun h => by cases h
  constructor
  case toPlaces => exact hplaces.of_eq hset hheap
  case opened =>
    intro k j
    show _ ∈ s.log ++ [_] ↔
      (((s.clear i (s.connections i).phase.session).setConnection i c).connections j).phase.Opened k
    rw [hset, (hsame j).2.1, ← hs.opened]
    simp
  case closed =>
    intro j
    show _ ∈ s.log ++ [_] ↔
      (((s.clear i (s.connections i).phase.session).setConnection i c).connections j).closing ≠ _
    rw [hset, List.mem_append, hs.closed]
    by_cases hj : j = i
    · subst hj
      rw [connections_self]
      simp [hc]
    · rw [connections_ne hj]
      simp [hj]
  case holder =>
    intro k
    show ((s.clear i (s.connections i).phase.session).sessions k = {} ∧
        ∀ j, newest (s.log ++ [_]) k = some j → .closed j ∈ s.log ++ [_]) ∨
      ∃ j, newest (s.log ++ [_]) k = some j ∧
        (s.clear i (s.connections i).phase.session).sessions k = _
    rw [newest_snoc_of_none rfl]
    rcases hs.clear_holder hgoing with ⟨hnone, hclosed⟩ | ⟨j, hj, hsession⟩
    · refine .inl ⟨hnone, fun j hj => ?_⟩
      rcases hclosed j hj with h | rfl
      · exact List.mem_append_left _ h
      · exact List.mem_append_right _ List.mem_cons_self
    · refine .inr ⟨j, hj, hsession.trans (ofConnection_congr ?_).symm⟩
      show (((s.clear i (s.connections i).phase.session).setConnection i c).connections j).address =
        _
      rw [hset]
      exact (hsame j).2.2
  case current =>
    intro k j hj hended
    have hcallback : (s.sessions k).onMessage = some j := by
      have h : ((s.clear i (s.connections i).phase.session).sessions k).onMessage = some j := hj
      rw [sessions_clear] at h
      split at h
      · cases h
      · exact h
    refine hs.current k j hcallback (hended.of_snoc fun heq => ?_)
    -- it closes now: then the callbacks are not its own any more
    cases heq
    have hnone : ((s.clear i (s.connections i).phase.session).sessions k).onMessage = none := by
      rw [hs.cleared hcallback]
    cases hnone.symm.trans hj
  case quiet =>
    intro pre j post hlog hopened e m
    rcases Log.split_snoc hlog with ⟨rfl, -, -⟩ | ⟨post', rfl, hlog'⟩
    · exact List.not_mem_nil
    · have hquiet := hs.quiet pre j post' hlog' hopened e m
      simpa using hquiet
  case to_newest =>
    intro pre j e m post hlog
    obtain ⟨post', -, hlog'⟩ := Log.split_snoc_of_ne (by simp) hlog
    exact hs.to_newest pre j e m post' hlog'
  case numbers =>
    intro e he
    show _ < (s.clear i (s.connections i).phase.session).emissions
    rw [hemissions]
    exact hs.numbers e (hemitted ▸ he)
  case once => exact hemitted.symm ▸ hs.once
  case outbox =>
    intro j
    show Outbox.system.Reachable
      (((s.clear i (s.connections i).phase.session).setConnection i c).connections j).outbox
    rw [hset, (hsame j).1]
    exact hs.outbox j
  case pushed =>
    intro j
    show (((s.clear i (s.connections i).phase.session).setConnection i c).connections
      j).outbox.pushed <+: handedTo j (s.log ++ [_])
    rw [hset, (hsame j).1, handedTo_snoc_of_none rfl]
    exact hs.pushed j
  case going =>
    intro j
    show (((s.clear i (s.connections i).phase.session).setConnection i c).connections
      j).outbox.stopping = false → (((s.clear i (s.connections i).phase.session).setConnection i
        c).connections j).outbox.pushed = handedTo j (s.log ++ [_])
    rw [hset, (hsame j).1, handedTo_snoc_of_none rfl]
    exact hs.going j

theorem Inv.abandon (hs : Inv s) : Inv (s.abandon i) := by
  unfold State.abandon
  split
  case isTrue => exact hs
  rename_i hguard
  have hclosing : (s.connections i).closing = .cleared := not_not.mp hguard
  set c : Connection := { s.connections i with
    closing := .done
    outbox :=
      if (s.connections i).address = none then (s.connections i).outbox
      else (s.connections i).outbox.abandon } with hc
  have hbegun : (s.connections i).phase ≠ .connected := by
    intro h
    cases (hs.before i h).symm.trans hclosing
  have hcleared : (s.connections i).closing ≠ .done := by
    rw [hclosing]
    exact fun h => by cases h
  have hpushed : c.outbox.pushed = (s.connections i).outbox.pushed := by
    show (if _ then _ else _ : Outbox.State).pushed = _
    split <;> rfl
  have houtbox : Outbox.system.Reachable c.outbox := by
    show Outbox.system.Reachable (if _ then _ else _)
    split
    · exact hs.outbox i
    · exact .step (e := .abandon) (hs.outbox i) rfl
  have hstopped : c.address = none ∨ c.outbox.stopping = true := by
    by_cases hnone : (s.connections i).address = none
    · exact .inl hnone
    · refine .inr ?_
      show (if _ then _ else _ : Outbox.State).stopping = true
      rw [if_neg hnone]
      rfl
  refine ⟨hs.toPlaces.closing rfl rfl hbegun (fun h => absurd rfl h) fun _ => hstopped,
    fun k j => ?_, fun j => ?_, fun k => ?_, hs.current, hs.quiet, hs.to_newest, hs.numbers,
    hs.once, fun j => ?_, fun j => ?_, fun j => ?_⟩
  case refine_3 =>
    refine (hs.holder k).imp_right fun ⟨j, hj, hsession⟩ => ⟨j, hj, ?_⟩
    refine hsession.trans (ofConnection_congr ?_).symm
    by_cases hji : j = i
    · subst hji
      rw [connections_self]
    · rw [connections_ne hji]
  all_goals by_cases hj : j = i
  all_goals first
    | subst hj; rw [connections_self]
    | rw [connections_ne hj]
  · exact hs.opened k j
  · exact hs.opened k j
  · refine (hs.closed j).trans (iff_of_true ?_ fun h => by cases h)
    rw [hclosing]
    exact fun h => by cases h
  · exact hs.closed j
  · exact houtbox
  · exact hs.outbox j
  · rw [hpushed]
    exact hs.pushed j
  · exact hs.pushed j
  · intro hgoing
    rw [hpushed]
    refine hs.going j ?_
    -- an outbox that is going still was going before
    by_contra hstop
    have hsame : c.outbox.stopping = true := by
      show (if _ then _ else _ : Outbox.State).stopping = true
      split
      · exact eq_true_of_ne_false hstop
      · rfl
    exact Bool.false_ne_true (hgoing.symm.trans hsame)
  · exact hs.going j

theorem Inv.free (hs : Inv s) : Inv (s.free i) := by
  unfold State.free
  split
  case h_1 => exact hs
  rename_i a ha
  split
  case isFalse => exact hs
  rename_i hfree
  obtain ⟨hheap, hclosing, -, -⟩ := hfree
  refine { hs with
    heap := fun b j hj => ?_
    alive := fun j b hb hopen => ?_ }
  · by_cases hba : b = a
    · subst hba
      have hnone : Function.update s.heap b none b = none := Function.update_self _ _ _
      cases hnone.symm.trans hj
    · exact hs.heap b j ((Function.update_of_ne hba _ _).symm.trans hj)
  · have hold := hs.alive j b hb hopen
    have hba : b ≠ a := by
      rintro rfl
      obtain rfl : i = j := Option.some.inj (hheap.symm.trans hold)
      exact hopen hclosing
    exact (Function.update_of_ne hba _ _).trans hold

theorem Inv.step (hs : Inv s) (e : Event) : Inv (step token s e) := by
  cases e with
  | register sessionId session => exact { hs with }
  | «open» i headers uri address => exact hs.accept headers uri address
  | go i => exact hs.go
  | requestError i id error => exact hs.requestError id error
  | close i => exact hs.close
  | abandon i => exact hs.abandon
  | free i => exact hs.free
  | sender i unsent => exact hs.sender unsent
  | emitMessage k m => exact hs.emit k m
  | emitKernelExit k reason => exact hs.emitKernelExit k reason

/-! ## Outboxes that take nothing -/

/-- The outbox is gone, or has been stopped. -/
def Shut (s : State) (j : Nat) : Prop :=
  s.lives j = false ∨ (s.connections j).outbox.stopping = true

theorem Inv.shut (hs : Inv s) {j : Nat} (h : (s.connections j).closing = .done) : Shut s j := by
  refine (hs.stopped j h).imp_left fun hnone => ?_
  rw [State.lives, hnone]
  rfl

theorem pushed_setConnection {c : Connection}
    (h : c.outbox.pushed = (s.connections i).outbox.pushed) (j : Nat) :
    ((s.setConnection i c).connections j).outbox.pushed = (s.connections j).outbox.pushed := by
  by_cases hj : j = i
  · subst hj
    rw [connections_self, h]
  · rw [connections_ne hj]

theorem pushed_setPhase (phase : Phase) (j : Nat) :
    ((s.setPhase i phase).connections j).outbox.pushed = (s.connections j).outbox.pushed := by
  refine pushed_setConnection ?_ j
  rfl

theorem Shut.push {j : Nat} (h : Shut s j) (emission : Option Emission) (m : Message) :
    ((s.push i emission m).connections j).outbox.pushed = (s.connections j).outbox.pushed := by
  unfold State.push
  split
  case isFalse => rfl
  rename_i hlives
  by_cases hj : j = i
  · subst hj
    rcases h with hdead | hstopping
    · exact absurd (hdead.symm.trans hlives) Bool.false_ne_true
    · refine pushed_setConnection ?_ j
      rw [(pushed_push _ m).2, hstopping]
      rfl
  · exact congrArg (fun c => c.outbox.pushed) (connections_ne hj _)

theorem Shut.emit {j : Nat} (h : Shut s j) (callback : Option Nat) (m : Message) :
    ((s.emit k callback m).connections j).outbox.pushed = (s.connections j).outbox.pushed := by
  unfold State.emit
  cases callback with
  | none => rfl
  | some i =>
    have hcounted : Shut { s with emissions := s.emissions + 1 } j := h
    exact hcounted.push _ m

theorem Shut.go {j : Nat} (h : Shut s j) :
    ((s.go i).connections j).outbox.pushed = (s.connections j).outbox.pushed := by
  unfold State.go
  split
  · split <;> exact pushed_setPhase _ j
  · exact pushed_setPhase _ j
  · rename_i k _
    have hopened : Shut (s.setPhase i (.opened k)) j := by
      by_cases hj : j = i
      · subst hj
        unfold Shut State.lives State.setPhase
        rw [connections_self]
        exact h
      · unfold Shut State.lives State.setPhase
        rw [connections_ne hj]
        exact h
    rw [hopened.push]
    exact pushed_setPhase _ j
  · rfl

theorem Shut.step {j : Nat} (h : Shut s j) (e : Event) :
    ((step token s e).connections j).outbox.pushed = (s.connections j).outbox.pushed := by
  cases e with
  | register sessionId session => rfl
  | «open» i headers uri address =>
    show ((s.accept token i headers uri address).connections j).outbox.pushed = _
    unfold State.accept
    split
    · rfl
    · split
      · exact pushed_setPhase _ j
      · refine pushed_setConnection ?_ j
        rfl
  | go i => exact h.go
  | requestError i id error =>
    show ((s.requestError i id error).connections j).outbox.pushed = _
    unfold State.requestError
    split
    · exact h.push none _
    · rfl
  | close i =>
    show ((s.close i).connections j).outbox.pushed = _
    unfold State.close
    split
    · rfl
    · have hframe := (clear_frame (s := s) (i := i) (s.connections i).phase.session).1
      refine (pushed_setConnection ?_ j).trans ?_ <;> rw [hframe]
  | abandon i =>
    show ((s.abandon i).connections j).outbox.pushed = _
    unfold State.abandon
    split
    · rfl
    · refine pushed_setConnection ?_ j
      show (if _ then _ else _ : Outbox.State).pushed = _
      split <;> rfl
  | free i =>
    show ((s.free i).connections j).outbox.pushed = _
    unfold State.free
    split
    · rfl
    · split <;> rfl
  | sender i unsent =>
    show ((s.sender i unsent).connections j).outbox.pushed = _
    unfold State.sender
    split
    · exact pushed_setConnection (Outbox.run_frame _ unsent).2.2 j
    · rfl
  | emitMessage k m => exact h.emit _ m
  | emitKernelExit k reason => exact h.emit _ _

/-! ## The headline -/

theorem Inv.address_of_newest (hs : Inv s) (h : newest s.log k = some i) :
    (s.connections i).address ≠ none := by
  intro hnone
  have hbare := (hs.address i).mp hnone
  rcases (hs.opened k i).mp (mem_of_newest h) with hphase | hphase
  all_goals
    rw [hphase] at hbare
    rcases hbare with h | h <;> cases h

theorem Inv.newest (hs : Inv s) (h : WsRelay.newest s.log k = some i) (hopen : .closed i ∉ s.log) :
    s.sessions k = s.ofConnection i := by
  rcases hs.holder k with ⟨-, hclosed⟩ | ⟨j, hj, hsession⟩
  · exact absurd (hclosed i h) hopen
  · obtain rfl : j = i := Option.some.inj (hj.symm.trans h)
    exact hsession

theorem Inv.undisturbed (hs : Inv s) {j : Nat} (h : WsRelay.newest s.log k = some i)
    (hopen : .closed i ∉ s.log) (hj : j ≠ i) : (s.close j).sessions k = s.sessions k := by
  unfold State.close
  split
  · rfl
  rename_i hguard
  obtain ⟨-, hgoing⟩ : (s.connections j).phase ≠ .connected ∧
      (s.connections j).closing = .none := by simpa using hguard
  refine (sessions_clear _).trans (if_neg ?_)
  rintro ⟨-, haddress, howner⟩
  obtain ⟨a, ha⟩ := Option.ne_none_iff_exists'.mp haddress
  rw [hs.newest h hopen, ha] at howner
  have hgoingi : (s.connections i).closing = .none := by
    by_contra hne
    exact hopen ((hs.closed i).mpr hne)
  refine hj (hs.eq_of_address ha howner ?_ ?_)
  · rw [hgoing]
    exact fun h => by cases h
  · rw [hgoingi]
    exact fun h => by cases h

/-- **Callbacks are owned**, in whatever order connections open and close, sessions come and go and
messages are emitted. -/
theorem callbacks_owned (token : Bytes) : ∀ s, (system token).Reachable s → Owned token s := by
  intro s hs
  have hinv : Inv s := by
    refine System.invariant (fun s hinit => ?_) (fun s e s' _ hs hstep => ?_) s hs
    · rw [hinit]
      exact inv_init
    · rw [hstep]
      exact hs.step e
  constructor
  case newest => exact fun k i h hopen => hinv.newest h hopen
  case together =>
    intro k
    refine (hinv.holder k).imp (fun h => h.1) fun ⟨i, hi, hsession⟩ => ?_
    exact ⟨i, hi, hsession, hinv.address_of_newest hi⟩
  case undisturbed => exact fun k i j h hopen hj => hinv.undisturbed h hopen hj
  case to_newest => exact hinv.to_newest
  case quiet => exact hinv.quiet
  case shut => exact fun i h e => (hinv.shut h).step e
  case once => exact hinv.once
  case read =>
    intro i
    have horder := (Outbox.inv_of_reachable (hinv.outbox i)).in_order
    refine ((List.prefix_append _ _).trans horder).trans ?_
    exact (hinv.pushed i).map Message.text

/-- A client that comes back before the supervisor has seen its first connection close. -/
def reconnected : List Event :=
  let uri := ascii "/sessions/a/messages?token=t"
  [.register (ascii "a") (some 0), .open 0 [] uri 7, .go 0, .go 0, .go 0,
    .emitMessage 0 (kernelExit "first"), .open 1 [] uri 8, .go 1, .go 1, .close 0, .go 1,
    .emitKernelExit 0 "second", .abandon 0, .close 1, .emitMessage 0 (kernelExit "third")]

theorem callbacks_owned_reconnected :
    Owned (ascii "t") (reconnected.foldl (step (ascii "t")) {}) ∧
      emitted (reconnected.foldl (step (ascii "t")) {}).log = [⟨0, 0⟩, ⟨0, 1⟩] ∧
      handedTo 1 (reconnected.foldl (step (ascii "t")) {}).log = [ready, kernelExit "second"] :=
  ⟨callbacks_owned _ _ (System.reachable_foldl _ _ _), by decide +kernel, by decide +kernel⟩

end Jovian.WsRelay
