import Jovian.Lib.Log
import Jovian.Lib.Transition
import Jovian.Lib.Utf8
import Mathlib.Data.List.Nodup
import Mathlib.Data.List.TakeWhile

/-!
# Jovian — stream text on its way out (`core/execution/interpreter.cpp`)

`publishStream` holds text back, one `PendingStream` for each name, and `flushStreamsLocked`
publishes what is held: when enough of it waits, when it has waited long enough (the next write
or the flusher thread finds out), when text of another request comes, and before anything else
is published. `m_streamMutex` makes each of these one step. What is published after a flush is
published in a second step, with the lock released.

The publisher writes JSON, which only has UTF-8 in it: text that is not makes it throw, in the
middle of a flush.

A request is its header, of any type; times are readings of the clock, 0 its epoch.
-/

namespace Jovian.Streams

open Utf8 (Bytes)

variable {H : Type} [DecidableEq H]

/-! ## The state -/

/-- Of the context it is the header that the publisher uses. -/
structure PendingStream (H : Type) where
  name : Bytes
  text : Bytes
  context : H
deriving DecidableEq, Repr

/-- What flushes the text that waits, and is then sent. The reply goes to the request it is of,
the others to the request that is current when they are published. -/
inductive Publication (H : Type) where
  | displayData | updateDisplayData | executeResult | error | clearOutput | inputRequest
  | executeReply (request : H)
deriving DecidableEq, Repr

def Publication.parent (current : H) : Publication H → H
  | .executeReply request => request
  | _ => current

inductive Entry (H : Type) where
  /-- `publishStream` is called while `request` is current. -/
  | wrote (request : H) (name text : Bytes)
  /-- A `stream` message with this parent. -/
  | streamed (request : H) (name text : Bytes)
  /-- `began` is how much of the log there was when its flush was done. -/
  | sent (publication : Publication H) (request : H) (began : Nat)
deriving DecidableEq, Repr

structure State (H : Type) where
  /-- `m_requestContext.header()` -/
  current : H
  pending : List (PendingStream H) := []
  pendingBytes : Nat := 0
  lastFlush : Int := 0
  /-- What has flushed and is still to be sent, with what `Entry.sent` will note. -/
  underway : List (Publication H × Nat) := []
  /-- An exception left the flusher thread: the process has ended. -/
  terminated : Bool := false
  log : List (Entry H) := []
deriving DecidableEq, Repr

/-- `kStreamFlushInterval` and `kStreamFlushBytes` -/
structure Config where
  flushInterval : Int
  flushBytes : Nat

/-! ## Flushing -/

def PendingStream.entry (p : PendingStream H) : Entry H := .streamed p.context p.name p.text

/-- Whether `dump` writes it. -/
def PendingStream.readable (p : PendingStream H) : Bool :=
  Utf8.isText p.name && Utf8.isText p.text

omit [DecidableEq H] in
theorem PendingStream.readable_eq (p : PendingStream H) :
    p.readable = ((Utf8.decode p.name).isSome && (Utf8.decode p.text).isSome) := by
  rw [readable, Utf8.isText_eq, Utf8.isText_eq]

/-- The publisher throws at the first text that is not readable; what waits behind it has been
swapped out already. -/
def flushStreamsLocked (now : Int) (s : State H) : State H :=
  { s with
    pending := []
    pendingBytes := 0
    lastFlush := if s.pending = [] then s.lastFlush else now
    log := s.log ++ (s.pending.takeWhile PendingStream.readable).map PendingStream.entry }

/-- Whether a flush returns, rather than throws. -/
def State.readable (s : State H) : Bool := s.pending.all PendingStream.readable

/-! ## Writing -/

/-- Whether the text that waits is another request's. -/
def State.ofAnother (s : State H) : Bool :=
  match s.pending with
  | p :: _ => p.context ≠ s.current
  | [] => false

/-- `pending->text += text`, of the entry of that name or a new one. -/
def addText (name text : Bytes) (context : H) : List (PendingStream H) → List (PendingStream H)
  | [] => [⟨name, text, context⟩]
  | p :: rest =>
    if p.name = name then { p with text := p.text ++ text } :: rest
    else p :: addText name text context rest

def State.note (e : Entry H) (s : State H) : State H := { s with log := s.log ++ [e] }

/-- The first text of all is due at once. -/
def State.started (cfg : Config) (now : Int) (s : State H) : State H :=
  { s with
    lastFlush :=
      if s.pending = [] ∧ s.lastFlush = 0 then now - cfg.flushInterval else s.lastFlush }

def State.added (name text : Bytes) (s : State H) : State H :=
  { s with
    pending := addText name text s.current s.pending
    pendingBytes := s.pendingBytes + text.length }

def State.due (cfg : Config) (now : Int) (s : State H) : Bool :=
  cfg.flushBytes ≤ s.pendingBytes ∨ cfg.flushInterval ≤ now - s.lastFlush

def flushIfDue (cfg : Config) (now : Int) (s : State H) : State H :=
  if s.due cfg now then flushStreamsLocked now s else s

def publishStream (cfg : Config) (now : Int) (name text : Bytes) (s : State H) : State H :=
  if text = [] then s
  else
    let s := s.started cfg now
    let wrote := Entry.wrote s.current name text
    if s.ofAnother then
      let flushed := (flushStreamsLocked now s).note wrote
      -- an exception here leaves `publishStream` before the text is added
      if s.readable then flushIfDue cfg now (flushed.added name text) else flushed
    else flushIfDue cfg now ((s.note wrote).added name text)

/-! ## Everything that happens -/

inductive Event (H : Type) where
  /-- `setRequestContext` -/
  | request (context : H)
  /-- `publishStream`, from any thread. -/
  | write (name text : Bytes) (now : Int)
  /-- The flusher thread's next look. -/
  | flusher (now : Int)
  /-- `flushStreams`, of one that publishes something else. -/
  | flush (publication : Publication H) (now : Int)
  /-- The message of `underway`'s entry `i`. -/
  | publish (i : Nat)
  /-- The reply that `KernelCore::executeRequest` sends when the interpreter throws: not by the
  callback that flushes, but by the one that was given to it. -/
  | internalError (request : H)
deriving DecidableEq, Repr

def streamFlusherLoop (cfg : Config) (now : Int) (s : State H) : State H :=
  if s.pending ≠ [] ∧ s.lastFlush + cfg.flushInterval ≤ now then
    { flushStreamsLocked now s with terminated := !s.readable }
  else s

/-- A flush that throws ends the publication. -/
def flushStreams (publication : Publication H) (now : Int) (s : State H) : State H :=
  let flushed := flushStreamsLocked now s
  if s.readable then
    { flushed with underway := flushed.underway ++ [(publication, flushed.log.length)] }
  else flushed

def publish (i : Nat) (s : State H) : State H :=
  match s.underway[i]? with
  | some (publication, began) =>
    { s with
      underway := s.underway.eraseIdx i
      log := s.log ++ [.sent publication (publication.parent s.current) began] }
  | none => s

def internalError (request : H) (s : State H) : State H :=
  { s with log := s.log ++ [.sent (.executeReply request) request s.log.length] }

variable (cfg : Config)

def act (s : State H) : Event H → State H
  | .request context => { s with current := context }
  | .write name text now => publishStream cfg now name text s
  | .flusher now => streamFlusherLoop cfg now s
  | .flush publication now => flushStreams publication now s
  | .publish i => publish i s
  | .internalError request => internalError request s

def step (s : State H) (e : Event H) : State H :=
  if s.terminated then s else act cfg s e

/-- The buffer as a transition system; before the first request, `header` is current. -/
def system (header : H) : Transition.System (State H) (Event H) :=
  .ofFn { current := header } (step cfg)

/-! ## What is lost and what is late -/

def Entry.written (request : H) (name : Bytes) : Entry H → Bytes
  | .wrote r n text => if r = request ∧ n = name then text else []
  | _ => []

def Entry.published (request : H) (name : Bytes) : Entry H → Bytes
  | .streamed r n text => if r = request ∧ n = name then text else []
  | _ => []

/-- The text written to a stream while `request` was current. -/
def written (log : List (Entry H)) (request : H) (name : Bytes) : Bytes :=
  log.flatMap (Entry.written request name)

/-- The text of a stream's messages with the parent `request`. -/
def published (log : List (Entry H)) (request : H) (name : Bytes) : Bytes :=
  log.flatMap (Entry.published request name)

def PendingStream.textOf (request : H) (name : Bytes) (p : PendingStream H) : Bytes :=
  if p.context = request ∧ p.name = name then p.text else []

def waiting (pending : List (PendingStream H)) (request : H) (name : Bytes) : Bytes :=
  pending.flatMap (PendingStream.textOf request name)

def bytes (pending : List (PendingStream H)) : Nat :=
  (pending.map fun p => p.text.length).sum

/-- **A message comes after the text.** `before` is the log up to a message of `request`, which
had flushed when the log was `began` long. What was written before that is published; where
nothing was written to the stream since, by another thread, everything written is. -/
def InOrder (before : List (Entry H)) (request : H) (began : Nat) : Prop :=
  ∀ name, written (before.take began) request name <+: published before request name ∧
    (written (before.drop began) request name = [] →
      published before request name = written before request name)

/-- **Coalescing loses and misplaces nothing.** -/
structure Faithful (s : State H) : Prop where
  conserved : ∀ request name,
    written s.log request name = published s.log request name ++ waiting s.pending request name
  inOrder : ∀ (i : Nat) publication request began,
    s.log[i]? = some (.sent publication request began) → InOrder (s.log.take i) request began
  counted : s.pendingBytes = bytes s.pending

/-! ## The condition -/

def State.handedIfDue (now : Int) (s : State H) : List (PendingStream H) :=
  if s.due cfg now then s.pending else []

/-- What a step hands to the publisher. -/
def handed (s : State H) : Event H → List (PendingStream H)
  | .write name text now =>
    let s := s.started cfg now
    if text = [] then []
    else if s.ofAnother then
      s.pending ++ ((flushStreamsLocked now s).added name text).handedIfDue cfg now
    else (s.added name text).handedIfDue cfg now
  | .flusher now => if s.lastFlush + cfg.flushInterval ≤ now then s.pending else []
  | .flush _ _ => s.pending
  | _ => []

/-- The reply to a failed interpreter does not overtake text of its request. -/
def Event.overtakes (s : State H) : Event H → Bool
  | .internalError answered => s.pending.any (·.context = answered)
  | _ => false

/-- Whether what a step publishes can be written and nothing is overtaken. -/
def publishable (s : State H) (e : Event H) : Bool :=
  (handed cfg s e).all PendingStream.readable && !e.overtakes s

/-! ## Logs -/

@[simp] theorem written_append (l₁ l₂ : List (Entry H)) (request : H) (name : Bytes) :
    written (l₁ ++ l₂) request name = written l₁ request name ++ written l₂ request name :=
  List.flatMap_append

@[simp] theorem published_append (l₁ l₂ : List (Entry H)) (request : H) (name : Bytes) :
    published (l₁ ++ l₂) request name = published l₁ request name ++ published l₂ request name :=
  List.flatMap_append

theorem published_entries (pending : List (PendingStream H)) (request : H) (name : Bytes) :
    published (pending.map PendingStream.entry) request name = waiting pending request name :=
  List.flatMap_map ..

theorem written_entries (pending : List (PendingStream H)) (request : H) (name : Bytes) :
    written (pending.map PendingStream.entry) request name = [] := by
  rw [written, List.flatMap_map, List.flatMap_eq_nil_iff]
  intro p _
  rfl

omit [DecidableEq H] in
theorem log_flush {s : State H} (now : Int) (h : s.readable = true) :
    (flushStreamsLocked now s).log = s.log ++ s.pending.map PendingStream.entry := by
  show s.log ++ (s.pending.takeWhile PendingStream.readable).map PendingStream.entry = _
  rw [List.takeWhile_eq_self_iff.mpr (List.all_eq_true.mp h)]

/-! ## Adding text -/

/-- Everything that waits is of one request. -/
def Together (context : H) (pending : List (PendingStream H)) : Prop :=
  ∀ p ∈ pending, p.context = context

def Distinct (pending : List (PendingStream H)) : Prop :=
  (pending.map PendingStream.name).Nodup

omit [DecidableEq H] in
theorem Together.addText {context : H} {pending : List (PendingStream H)} (name text : Bytes)
    (h : Together context pending) : Together context (addText name text context pending) := by
  induction pending with
  | nil => simp [Streams.addText, Together]
  | cons p rest ih =>
    obtain ⟨hp, hrest⟩ := List.forall_mem_cons.mp h
    by_cases hname : p.name = name
    · rw [Streams.addText, if_pos hname]
      exact List.forall_mem_cons.mpr ⟨hp, hrest⟩
    · rw [Streams.addText, if_neg hname]
      exact List.forall_mem_cons.mpr ⟨hp, ih hrest⟩

omit [DecidableEq H] in
theorem names_addText (name text : Bytes) (context : H) (pending : List (PendingStream H)) :
    (addText name text context pending).map PendingStream.name =
      if name ∈ pending.map PendingStream.name then pending.map PendingStream.name
      else pending.map PendingStream.name ++ [name] := by
  induction pending with
  | nil => simp [addText]
  | cons p rest ih =>
    by_cases hname : p.name = name
    · simp [addText, hname]
    · rw [addText, if_neg hname, List.map_cons, ih]
      by_cases hrest : name ∈ rest.map PendingStream.name
      · have : name ∈ (p :: rest).map PendingStream.name := List.mem_cons_of_mem _ hrest
        rw [if_pos hrest, if_pos this, List.map_cons]
      · have : name ∉ (p :: rest).map PendingStream.name := by
          rw [List.map_cons, List.mem_cons, not_or]
          exact ⟨Ne.symm hname, hrest⟩
        rw [if_neg hrest, if_neg this, List.map_cons, List.cons_append]

omit [DecidableEq H] in
theorem Distinct.addText {context : H} {pending : List (PendingStream H)} (name text : Bytes)
    (h : Distinct pending) : Distinct (addText name text context pending) := by
  rw [Distinct, names_addText]
  by_cases hname : name ∈ pending.map PendingStream.name
  · rw [if_pos hname]
    exact h
  · rw [if_neg hname]
    refine List.nodup_append.mpr ⟨h, List.nodup_singleton name, ?_⟩
    rintro stream hmem _ hsingle rfl
    exact hname (List.mem_singleton.mp hsingle ▸ hmem)

omit [DecidableEq H] in
theorem bytes_addText (name text : Bytes) (context : H) (pending : List (PendingStream H)) :
    bytes (addText name text context pending) = bytes pending + text.length := by
  induction pending with
  | nil => simp [addText, bytes]
  | cons p rest ih =>
    simp only [bytes] at ih
    by_cases hname : p.name = name
    · simp [addText, hname, bytes]
      omega
    · simp [addText, hname, bytes, ih]
      omega

/-- A name that nothing waits under has no text. -/
theorem waiting_of_not_mem {pending : List (PendingStream H)} {name : Bytes} (request : H)
    (h : name ∉ pending.map PendingStream.name) : waiting pending request name = [] := by
  rw [waiting, List.flatMap_eq_nil_iff]
  intro p hp
  have : p.name ≠ name := fun heq => h (heq ▸ List.mem_map_of_mem hp)
  simp [PendingStream.textOf, this]

/-- **Text goes to the end of its stream.** -/
theorem waiting_addText {context : H} {pending : List (PendingStream H)} (name text : Bytes)
    (htogether : Together context pending) (hdistinct : Distinct pending) (request : H)
    (stream : Bytes) :
    waiting (addText name text context pending) request stream =
      waiting pending request stream ++
        Entry.written request stream (.wrote context name text) := by
  induction pending with
  | nil => simp [addText, waiting, PendingStream.textOf, Entry.written]
  | cons p rest ih =>
    obtain ⟨hp, hrest⟩ := List.forall_mem_cons.mp htogether
    obtain ⟨hnew, hdistinct⟩ := List.nodup_cons.mp hdistinct
    by_cases hname : p.name = name
    · rw [addText, if_pos hname]
      by_cases hstream : context = request ∧ name = stream
      · -- the text joins `p`, and nothing else of this stream waits behind it
        obtain ⟨rfl, rfl⟩ := hstream
        have hnone : waiting rest context name = [] := waiting_of_not_mem context (hname ▸ hnew)
        simp only [waiting] at hnone
        simp [waiting, PendingStream.textOf, Entry.written, hp, hname, hnone]
      · have : ¬(p.context = request ∧ p.name = stream) := by rwa [hp, hname]
        simp [waiting, PendingStream.textOf, Entry.written, hstream, this]
    · rw [addText, if_neg hname]
      show PendingStream.textOf request stream p ++
          waiting (addText name text context rest) request stream = _
      rw [ih hrest hdistinct, ← List.append_assoc]
      rfl

/-! ## What waits is what is missing -/

structure Held (s : State H) : Prop where
  alive : s.terminated = false
  conserved : ∀ request name,
    written s.log request name = published s.log request name ++ waiting s.pending request name
  counted : s.pendingBytes = bytes s.pending
  together : ∃ context, Together context s.pending
  distinct : Distinct s.pending

theorem Held.together_current {s : State H} (h : Held s) (hof : s.ofAnother = false) :
    Together s.current s.pending := by
  obtain ⟨context, htogether⟩ := h.together
  cases hpending : s.pending with
  | nil => simp [Together]
  | cons p rest =>
    rw [hpending] at htogether
    have hcurrent : p.context = s.current := by simpa [State.ofAnother, hpending] using hof
    have hcontext : p.context = context := htogether p List.mem_cons_self
    rwa [← hcurrent, hcontext]

theorem Held.started {s : State H} (now : Int) (h : Held s) : Held (s.started cfg now) :=
  ⟨h.alive, h.conserved, h.counted, h.together, h.distinct⟩

theorem Held.flush {s : State H} (now : Int) (h : Held s) (hreadable : s.readable = true) :
    Held (flushStreamsLocked now s) where
  alive := h.alive
  conserved request name := by
    rw [log_flush now hreadable, written_append, written_entries, published_append,
      published_entries, ← h.conserved]
    simp [flushStreamsLocked, waiting]
  counted := rfl
  together := ⟨s.current, by simp [Together, flushStreamsLocked]⟩
  distinct := List.nodup_nil

theorem Held.added {s : State H} (name text : Bytes) (h : Held s)
    (htogether : Together s.current s.pending) :
    Held ((s.note (.wrote s.current name text)).added name text) where
  alive := h.alive
  conserved request stream := by
    show written (s.log ++ [_]) request stream = published (s.log ++ [_]) request stream ++
      waiting (addText name text s.current s.pending) request stream
    rw [waiting_addText name text htogether h.distinct, written_append, published_append,
      h.conserved]
    simp [written, published, Entry.published]
  counted := by
    show s.pendingBytes + text.length = bytes (addText name text s.current s.pending)
    rw [bytes_addText, h.counted]
  together := ⟨s.current, htogether.addText name text⟩
  distinct := h.distinct.addText name text

theorem Held.flushIfDue {s : State H} (now : Int) (h : Held s)
    (hhanded : (s.handedIfDue cfg now).all PendingStream.readable = true) :
    Held (flushIfDue cfg now s) := by
  by_cases hdue : s.due cfg now = true
  · rw [Streams.flushIfDue, if_pos hdue]
    rw [State.handedIfDue, if_pos hdue] at hhanded
    exact h.flush now hhanded
  · rw [Streams.flushIfDue, if_neg hdue]
    exact h

theorem Held.write {s : State H} (name text : Bytes) (now : Int) (h : Held s)
    (hhanded : (handed cfg s (.write name text now)).all PendingStream.readable = true) :
    Held (publishStream cfg now name text s) := by
  by_cases htext : text = []
  · rw [publishStream, if_pos htext]
    exact h
  · have hstarted := h.started cfg now
    rw [publishStream, if_neg htext]
    rw [handed, if_neg htext] at hhanded
    by_cases hof : (s.started cfg now).ofAnother = true
    · simp only [if_pos hof, List.all_append, Bool.and_eq_true] at hhanded ⊢
      obtain ⟨hpending, hdue⟩ := hhanded
      have hreadable : (s.started cfg now).readable = true := hpending
      rw [if_pos hreadable]
      have hflushed := hstarted.flush now hreadable
      exact (hflushed.added name text (by simp [Together, flushStreamsLocked])).flushIfDue cfg now
        hdue
    · simp only [if_neg hof] at hhanded ⊢
      have htogether := hstarted.together_current (by simpa using hof)
      exact (hstarted.added name text htogether).flushIfDue cfg now hhanded

/-- A message leaves what waits as it was. -/
theorem Held.sent {s : State H} (publication : Publication H) (request : H) (began : Nat)
    (h : Held s) : Held (s.note (.sent publication request began)) where
  alive := h.alive
  conserved request name := by
    simpa [State.note, written, published, Entry.written, Entry.published]
      using h.conserved request name
  counted := h.counted
  together := h.together
  distinct := h.distinct

theorem Held.step {s : State H} {e : Event H} (h : Held s)
    (hc : publishable cfg s e = true) : Held (step cfg s e) := by
  obtain ⟨hhanded, _⟩ := Bool.and_eq_true_iff.mp hc
  rw [Streams.step, h.alive, if_neg Bool.false_ne_true]
  cases e with
  | request context => exact ⟨h.alive, h.conserved, h.counted, h.together, h.distinct⟩
  | write name text now => exact h.write cfg name text now hhanded
  | flusher now =>
    show Held (streamFlusherLoop cfg now s)
    by_cases hdue : s.pending ≠ [] ∧ s.lastFlush + cfg.flushInterval ≤ now
    · rw [handed, if_pos hdue.2] at hhanded
      have hflushed := h.flush now hhanded
      rw [streamFlusherLoop, if_pos hdue]
      refine ⟨?_, hflushed.conserved, hflushed.counted, hflushed.together, hflushed.distinct⟩
      simpa [State.readable] using hhanded
    · rw [streamFlusherLoop, if_neg hdue]
      exact h
  | flush publication now =>
    have hreadable : s.readable = true := hhanded
    have hflushed := h.flush now hreadable
    show Held (flushStreams publication now s)
    rw [flushStreams, if_pos hreadable]
    exact ⟨hflushed.alive, hflushed.conserved, hflushed.counted, hflushed.together,
      hflushed.distinct⟩
  | publish i =>
    show Held (publish i s)
    rw [publish]
    split
    · next publication began _ =>
      have hsent := h.sent publication (publication.parent s.current) began
      exact ⟨hsent.alive, hsent.conserved, hsent.counted, hsent.together, hsent.distinct⟩
    · exact h
  | internalError request => exact h.sent (.executeReply request) request s.log.length

/-! ## What was flushed stays ahead -/

/-- What was written to a request when the log was `began` long is published. -/
def Flushed (log : List (Entry H)) (request : H) (began : Nat) : Prop :=
  began ≤ log.length ∧
    ∀ name, written (log.take began) request name <+: published log request name

theorem Flushed.append {log : List (Entry H)} {request : H} {began : Nat}
    (es : List (Entry H)) (h : Flushed log request began) : Flushed (log ++ es) request began := by
  refine ⟨?_, fun name => ?_⟩
  · rw [List.length_append]
    exact h.1.trans (Nat.le_add_right _ _)
  · rw [List.take_append_of_le_length h.1, published_append]
    exact (h.2 name).trans (List.prefix_append _ _)

theorem Held.flushed {s : State H} {request : H} (h : Held s)
    (hnone : ∀ name, waiting s.pending request name = []) :
    Flushed s.log request s.log.length := by
  refine ⟨Nat.le_refl _, fun name => ?_⟩
  have hall : written s.log request name = published s.log request name := by
    rw [h.conserved, hnone, List.append_nil]
  rw [List.take_length]
  exact hall ▸ List.prefix_rfl

theorem Held.inOrder {s : State H} {request : H} {began : Nat} (h : Held s)
    (hflushed : Flushed s.log request began) : InOrder s.log request began := by
  intro name
  refine ⟨hflushed.2 name, fun hsince => ?_⟩
  -- everything written was written before the flush
  have hall : written s.log request name = written (s.log.take began) request name := by
    conv_lhs => rw [← List.take_append_drop began s.log, written_append, hsince, List.append_nil]
  have hle : published s.log request name <+: written s.log request name :=
    ⟨_, (h.conserved request name).symm⟩
  exact hle.eq_of_length_le (hall ▸ (hflushed.2 name).length_le)

structure Ordered (s : State H) : Prop where
  underway : ∀ u ∈ s.underway, ∀ request, Flushed s.log request u.2
  inOrder : ∀ (i : Nat) publication request began,
    s.log[i]? = some (.sent publication request began) → InOrder (s.log.take i) request began

/-- Text changes nothing for the messages before it. -/
theorem Ordered.append {s s' : State H} {es : List (Entry H)} (h : Ordered s)
    (hlog : s'.log = s.log ++ es) (hsent : ∀ publication request began,
      Entry.sent publication request began ∉ es)
    (hunderway : s'.underway = s.underway) : Ordered s' where
  underway u hu request := by
    rw [hlog]
    exact (h.underway u (hunderway ▸ hu) request).append es
  inOrder i publication request began hi := by
    rw [hlog] at hi ⊢
    rcases Nat.lt_or_ge i s.log.length with hlt | hge
    · rw [List.getElem?_append_left hlt] at hi
      rw [List.take_append_of_le_length hlt.le]
      exact h.inOrder i publication request began hi
    · rw [List.getElem?_append_right hge] at hi
      exact absurd (List.mem_of_getElem? hi) (hsent publication request began)

theorem Ordered.flush {s : State H} (now : Int) (h : Ordered s) :
    Ordered (flushStreamsLocked now s) := by
  refine h.append rfl (fun publication request began hmem => ?_) rfl
  obtain ⟨p, _, hp⟩ := List.mem_map.mp hmem
  cases hp

theorem Ordered.wrote {s : State H} (name text : Bytes) (h : Ordered s) :
    Ordered (s.note (.wrote s.current name text)) :=
  h.append rfl (by simp) rfl

theorem Ordered.of_log {s s' : State H} (h : Ordered s) (hlog : s'.log = s.log)
    (hunderway : s'.underway = s.underway) : Ordered s' :=
  h.append (hlog.trans (List.append_nil _).symm) (by simp) hunderway

theorem Ordered.flushIfDue {s : State H} (now : Int) (h : Ordered s) :
    Ordered (flushIfDue cfg now s) := by
  rw [Streams.flushIfDue]
  split
  · exact h.flush now
  · exact h

theorem Ordered.write {s : State H} (name text : Bytes) (now : Int) (h : Ordered s) :
    Ordered (publishStream cfg now name text s) := by
  have hstarted : Ordered (s.started cfg now) := h.of_log rfl rfl
  have hadded {t : State H} (ht : Ordered t) : Ordered (t.added name text) := ht.of_log rfl rfl
  have hnoted := (hstarted.flush now).wrote name text
  rw [publishStream]
  split
  · exact h
  · dsimp only
    split
    · split
      · exact (hadded hnoted).flushIfDue cfg now
      · exact hnoted
    · exact (hadded (hstarted.wrote name text)).flushIfDue cfg now

/-- A message whose request has been flushed joins the log. -/
theorem Ordered.sent {s : State H} {publication : Publication H} {request : H} {began : Nat}
    (h : Ordered s) (hheld : Held s) (hflushed : Flushed s.log request began) :
    Ordered (s.note (.sent publication request began)) where
  underway u hu answered := (h.underway u hu answered).append _
  inOrder i publication' request' began' hi := by
    rw [State.note] at hi ⊢
    rcases Log.getElem?_snoc.mp hi with hi | ⟨rfl, heq⟩
    · rw [Log.take_snoc hi]
      exact h.inOrder i publication' request' began' hi
    · -- the new message
      obtain ⟨rfl, rfl, rfl⟩ := Entry.sent.inj heq
      rw [List.take_left]
      exact hheld.inOrder hflushed

theorem Ordered.step {s : State H} {e : Event H} (h : Ordered s) (hheld : Held s)
    (hc : publishable cfg s e = true) : Ordered (step cfg s e) := by
  obtain ⟨hhanded, hovertakes⟩ := Bool.and_eq_true_iff.mp hc
  rw [Streams.step, hheld.alive, if_neg Bool.false_ne_true]
  cases e with
  | request context => exact h.of_log rfl rfl
  | write name text now => exact h.write cfg name text now
  | flusher now =>
    show Ordered (streamFlusherLoop cfg now s)
    rw [streamFlusherLoop]
    split
    · exact (h.flush now).of_log rfl rfl
    · exact h
  | flush publication now =>
    have hflushed := h.flush now
    have hreadable : s.readable = true := hhanded
    have hnone := hheld.flush now hreadable
    show Ordered (flushStreams publication now s)
    rw [flushStreams, if_pos hreadable]
    refine ⟨fun u hu request => ?_, hflushed.inOrder⟩
    rcases List.mem_append.mp hu with hu | hu
    · exact hflushed.underway u hu request
    · obtain rfl := List.mem_singleton.mp hu
      -- nothing waits behind the flush
      exact hnone.flushed fun _ => rfl
  | publish i =>
    show Ordered (publish i s)
    rw [publish]
    split
    · next publication began hi =>
      have hu := h.underway _ (List.mem_of_getElem? hi)
      have hsent : Ordered (s.note (.sent publication (publication.parent s.current) began)) :=
        h.sent hheld (hu (publication.parent s.current))
      exact ⟨fun u hu => hsent.underway u (List.mem_of_mem_eraseIdx hu), hsent.inOrder⟩
    · exact h
  | internalError request =>
    refine h.sent hheld (hheld.flushed fun name => ?_)
    rw [waiting, List.flatMap_eq_nil_iff]
    intro p hp
    have : p.context ≠ request := by
      simp [Event.overtakes] at hovertakes
      exact hovertakes p hp
    simp [PendingStream.textOf, this]

/-! ## Every run -/

theorem sound {header : H} :
    ∀ s, ((system cfg header).when fun s e => publishable cfg s e = true).Reachable s →
      Held s ∧ Ordered s := by
  apply Transition.System.invariant
  · rintro s rfl
    exact ⟨⟨rfl, fun _ _ => rfl, rfl, ⟨header, by simp [Together]⟩, List.nodup_nil⟩,
      ⟨by simp, by simp⟩⟩
  · rintro s e s' - ⟨hheld, hordered⟩ ⟨hc, rfl⟩
    exact ⟨hheld.step cfg hc, hordered.step cfg hheld hc⟩

/-- **Stream coalescing is faithful while what it publishes can be written.** In every run whose
flushes find UTF-8 text only, and whose failed interpreters' replies find no text of their request
waiting: each request's text is published or waits, in the order it was written and under that
request; the messages come after the text written before them; the byte count is right. And what
waits goes out at the flusher's next look that is late enough. -/
theorem streams_faithful {header : H} {s : State H}
    (h : ((system cfg header).when fun s e => publishable cfg s e = true).Reachable s) :
    Faithful s ∧ ∀ now, s.readable = true → s.lastFlush + cfg.flushInterval ≤ now →
      ∀ request name, published (step cfg s (.flusher now)).log request name =
        written s.log request name := by
  obtain ⟨hheld, hordered⟩ := sound cfg s h
  refine ⟨⟨hheld.conserved, hordered.inOrder, hheld.counted⟩,
    fun now hreadable hlate request name => ?_⟩
  show published (if s.terminated then s else streamFlusherLoop cfg now s).log request name = _
  rw [hheld.alive, if_neg Bool.false_ne_true, streamFlusherLoop, hheld.conserved]
  by_cases hpending : s.pending = []
  · rw [if_neg (fun hdue => hdue.1 hpending), hpending]
    exact (List.append_nil _).symm
  · rw [if_pos ⟨hpending, hlate⟩]
    show published (flushStreamsLocked now s).log request name = _
    rw [log_flush now hreadable, published_append, published_entries]

/-- What the kernels ship with. -/
def shipped : Config where
  flushInterval := 50
  flushBytes := 16 * 1024

/-- `stdout` -/
def stdout : Bytes := [115, 116, 100, 111, 117, 116]

/-- `stderr` -/
def stderr : Bytes := [115, 116, 100, 101, 114, 114]

/-- Two requests and both streams: `A`, `B`, a display, `C`, and `D` of the second request. -/
def twoRequests : List (Event Nat) :=
  [.request 1, .write stdout [65] 1000, .write stderr [66] 1010, .flush .displayData 1020,
    .publish 0, .write stdout [67] 1030, .flush (.executeReply 1) 1040, .publish 0, .request 2,
    .write stdout [68] 1050]

theorem streams_faithful_twoRequests :
    Faithful (twoRequests.foldl (step shipped) { current := 0 }) ∧ ∀ now,
      State.readable (twoRequests.foldl (step shipped) { current := 0 }) = true →
      (twoRequests.foldl (step shipped) { current := 0 }).lastFlush + 50 ≤ now →
      ∀ request name,
        published (step shipped (twoRequests.foldl (step shipped) { current := 0 })
            (.flusher now)).log request name =
          written (twoRequests.foldl (step shipped) { current := 0 }).log request name :=
  @streams_faithful Nat _ shipped 0 _ (Transition.System.reachable_of_allSteps (by decide +kernel))

/-- The byte `FF` is lost on its way out; and a reply that `KernelCore` sends for a cell that threw
goes out before the `B` that was written to it. -/
theorem text_lost_and_overtaken :
    (∃ s : State Nat, (system shipped 0).Reachable s ∧ ¬Faithful s ∧ s.pending = [] ∧
      written s.log 1 stdout = [0xFF] ∧ published s.log 1 stdout = []) ∧
    ∃ s : State Nat, (system shipped 0).Reachable s ∧ ¬Faithful s ∧
      s.log = [.wrote 1 stdout [65], .streamed 1 stdout [65], .wrote 1 stdout [66],
        .sent (.executeReply 1) 1 3] := by
  refine ⟨⟨_, Transition.System.reachable_foldl _ _ [.request 1, .write stdout [0xFF] 1000],
      fun h => ?_, by decide +kernel, by decide +kernel, by decide +kernel⟩,
    ⟨_, Transition.System.reachable_foldl _ _ [.request 1, .write stdout [65] 1000,
      .write stdout [66] 1010, .internalError 1], fun h => ?_, by decide +kernel⟩⟩
  · have hlost := h.conserved 1 stdout
    revert hlost
    decide +kernel
  · -- the reply is the log's last entry
    have hlate := (h.inOrder 3 (.executeReply 1) 1 3 (by decide +kernel) stdout).1
    revert hlate
    decide +kernel

end Jovian.Streams
