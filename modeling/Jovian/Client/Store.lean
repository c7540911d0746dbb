import Jovian.Client.TranscriptBatches
import Mathlib.Logic.Function.Basic

/-!
# Store — the page's state, and what each action makes of it (`store.ts`)

The sessions a page shows, each with its transcript. Live messages and a history that is replayed after a
reload go through the same functions.

* `reducer` — one action.
* **`Alike.startCell`** and those after it — each function that an action uses makes alike transcripts of alike ones.
-/

namespace Jovian.Transcript

/-! ## The transcript's own functions -/

def emptyTranscript : Transcript := { cells := [], currentKey := none, nextOutputId := 1 }

/-- Appends a cell and makes it the one output attaches to. -/
def startCell (t : Transcript) (key : String) (inNum : Nat) (code : Text) (time : Nat) : Transcript :=
  { t with cells := t.cells ++ [{ key, inNum, code, time, outputs := [] }], currentKey := some key }

def endCell (t : Transcript) : Transcript := { t with currentKey := none }

def clearCells (t : Transcript) : Transcript := { t with cells := [] }

/-- Reconciles a cell's number with the kernel's own count. -/
def setCellNumber (t : Transcript) (key : String) (inNum : Nat) : Transcript :=
  t.mapCell (some key) fun c => { c with inNum }

/-- An input prompt that is pending is answered. -/
def Output.answer (value : Text) (o : Output) : Output :=
  match o.shown with
  | .input prompt password false _ => { o with shown := .input prompt password true (some value) }
  | _ => o

def answerInput (t : Transcript) (value : Text) : Transcript :=
  t.mapCell t.currentKey fun c => { c with outputs := c.outputs.map (·.answer value) }

end Jovian.Transcript

namespace Jovian.Transcript

/-! ### Alike -/

variable {t u : Transcript}

theorem Alike.cells_eq_nil (h : Alike t u) : t.cells = [] ↔ u.cells = [] := by
  constructor
  · intro ht
    exact List.forall₂_nil_left_iff.mp (ht ▸ h.cells)
  · intro hu
    exact List.forall₂_nil_right_iff.mp (hu ▸ h.cells)

theorem Alike.keys (h : Alike t u) : t.keys = u.keys := by
  have hall : ∀ {cs ds : List Cell}, List.Forall₂ AlikeCell cs ds → cs.map Cell.key = ds.map Cell.key := by
    intro cs ds hcells
    induction hcells with
    | nil => rfl
    | cons hcd _ ih => rw [List.map_cons, List.map_cons, hcd.key, ih]
  exact hall h.cells

theorem Alike.startCell (h : Alike t u) (key : String) (inNum : Nat) (code : Text) (time : Nat) :
    Alike (t.startCell key inNum code time) (u.startCell key inNum code time) :=
  ⟨List.rel_append h.cells (.cons (.refl _) .nil), rfl, h.nextOutputId⟩

theorem Alike.withCurrentKey (h : Alike t u) (key : Option String) :
    Alike { t with currentKey := key } { u with currentKey := key } :=
  ⟨h.cells, rfl, h.nextOutputId⟩

theorem Alike.clearCells (h : Alike t u) : Alike t.clearCells u.clearCells :=
  ⟨.nil, h.currentKey, h.nextOutputId⟩

theorem Alike.setCellNumber (h : Alike t u) (key : String) (inNum : Nat) :
    Alike (t.setCellNumber key inNum) (u.setCellNumber key inNum) :=
  h.mapCell _ fun _ _ hcd => ⟨hcd.key, rfl, hcd.code, hcd.time, hcd.outputs, hcd.clearOnNext⟩

/-- A prompt has no text that is cut. -/
theorem AlikeOut.answer {o p : Output} (h : AlikeOut o p) (value : Text) :
    AlikeOut (o.answer value) (p.answer value) := by
  obtain ⟨i, shown⟩ := o
  obtain ⟨j, shown'⟩ := p
  have hplain := h.plain
  cases shown with
  | input prompt password answered answeredValue =>
    have heq : (⟨i, .input prompt password answered answeredValue⟩ : Output) = ⟨j, shown'⟩ := by
      cases shown' with
      | input => exact hplain
      | text => cases hplain
      | image => cases hplain
    rw [heq]
    exact .refl _
  | text =>
    cases shown' with
    | input => cases hplain
    | text => exact h
    | image => exact h
  | image =>
    cases shown' with
    | input => cases hplain
    | text => exact h
    | image => exact h

theorem Alike.answerInput (h : Alike t u) (value : Text) : Alike (t.answerInput value) (u.answerInput value) := by
  have hmap := h.mapCell t.currentKey (f := fun c => { c with outputs := c.outputs.map (·.answer value) })
    (g := fun c => { c with outputs := c.outputs.map (·.answer value) }) fun c d hcd =>
      ⟨hcd.key, hcd.inNum, hcd.code, hcd.time, List.rel_map (fun _ _ hop => hop.answer value) hcd.outputs,
        hcd.clearOnNext⟩
  unfold Transcript.answerInput
  rw [← h.currentKey]
  exact hmap

/-- Several messages at once beside the same one by one, from alike transcripts. -/
theorem Alike.applyMessages (h : Alike t u) (hkeys : t.keys.Nodup) (msgs : List WireMessage) :
    Alike (t.applyMessages msgs) (msgs.foldl applyMessage u) ∧ (t.applyMessages msgs).keys = t.keys := by
  induction t, msgs using Transcript.applyMessages.induct generalizing u with
  | case1 t =>
    rw [Transcript.applyMessages]
    exact ⟨h, rfl⟩
  | case2 t msg rest hstream ih =>
    rw [Transcript.applyMessages, if_pos hstream]
    have hrun : ∀ m ∈ msg :: rest.takeWhile isStream, m.msgType = "stream" := by
      intro m hm
      have hm' : isStream m = true := by
        rcases List.mem_cons.mp hm with rfl | hm
        · exact hstream
        · exact List.mem_takeWhile_imp hm
      exact of_decide_eq_true hm'
    have hrest := ih (applyStreams_alike h hkeys hrun) (by rwa [applyStreams_keys hkeys])
    rw [← List.foldl_append, List.cons_append, List.takeWhile_append_dropWhile, applyStreams_keys hkeys] at hrest
    exact hrest
  | case3 t msg rest hstream ih =>
    rw [Transcript.applyMessages, if_neg hstream, List.foldl_cons]
    have hmsg : msg.msgType ≠ "stream" := fun heq => hstream (decide_eq_true heq)
    have hrest := ih (applyMessage_alike h hmsg) (by rwa [applyMessage_keys])
    rwa [applyMessage_keys] at hrest

/-- With no cell there is nowhere for a message to go. -/
theorem applyMessage_nowhere (h : t.cells = []) (msg : WireMessage) : t.applyMessage msg = t := by
  have hcell : ∀ key, t.hasCell key = false := fun key => by rw [Transcript.hasCell, h, List.any_nil]
  have hpush : ∀ output, t.pushOutput output = t := fun output => by
    rw [Transcript.pushOutput, hcell, if_neg Bool.false_ne_true]
  have hmap : ∀ key fn, t.mapCell key fn = t := fun key fn => by
    rw [Transcript.mapCell, hcell, if_neg Bool.false_ne_true]
  have hstream : ∀ content, t.applyStream content = t := fun content => by
    simp [Transcript.applyStream, h, hpush]
  have hnone : ∀ displayId : Option String, displayId.filter (fun _ => false) = none := fun displayId => by
    cases displayId <;> rfl
  unfold applyMessage
  simp only [hpush, hmap, hstream, h, List.any_nil, hnone]
  -- what is shown of a bundle is pushed, and else nothing happens
  split_ifs
  · rfl
  · split <;> rfl
  · split <;> rfl
  · rfl
  · rfl
  · rfl
  · rfl

theorem foldl_applyMessage_nowhere (h : t.cells = []) (msgs : List WireMessage) :
    msgs.foldl applyMessage t = t := by
  induction msgs with
  | nil => rfl
  | cons msg msgs ih => rw [List.foldl_cons, applyMessage_nowhere h, ih]

end Jovian.Transcript

namespace Jovian.Store

open Transcript (Text OutputClass WireMessage Alike AlikeOut AlikeCell)

/-! ## The state -/

inductive SessionStatus where
  | starting | ready | stopped | crashed

structure HeartbeatView where
  rttMs : Option Rat
  sinceLastPongMs : Option Rat
  misses : Nat

structure SessionView where
  id : String
  status : SessionStatus
  version : Option Text := none
  pid : Option Nat := none
  memoryBytes : Option Nat := none
  heartbeat : Option HeartbeatView := none
  /-- The kernel's own execution counter, as far as this page knows. -/
  execCount : Nat := 0
  running : Bool := false
  transcript : Transcript := Transcript.emptyTranscript

/-- Some of a view's fields, other than the transcript. -/
structure Patch where
  status : Option SessionStatus := none
  version : Option (Option Text) := none
  pid : Option (Option Nat) := none
  memoryBytes : Option (Option Nat) := none
  heartbeat : Option (Option HeartbeatView) := none
  execCount : Option Nat := none
  running : Option Bool := none

structure HistoryRecord where
  code : Text
  executionCount : Option Nat
  time : Nat
  messages : List WireMessage

structure State where
  sessions : String → Option SessionView := fun _ => none
  order : List String := []
  activeId : Option String := none

inductive Action where
  | add (session : SessionView)
  | remove (id : String)
  | select (id : Option String)
  | patch (id : String) (patch : Patch)
  | message (id : String) (message : WireMessage)
  | messages (id : String) (messages : List WireMessage)
  | runStarted (id key : String) (code : Text) (time : Nat)
  | runFinished (id key : String) (executionCount : Option Nat) (failure : Option Text)
  | notice (id : String) (cls : OutputClass) (text : Text)
  | answerInput (id : String) (value : Text)
  | clearOutput (id : String)
  | hydrate (id : String) (history : List HistoryRecord)

/-! ## What an action makes of a session -/

namespace SessionView

variable (s : SessionView)

def patched (p : Patch) : SessionView :=
  { s with
    status := p.status.getD s.status
    version := p.version.getD s.version
    pid := p.pid.getD s.pid
    memoryBytes := p.memoryBytes.getD s.memoryBytes
    heartbeat := p.heartbeat.getD s.heartbeat
    execCount := p.execCount.getD s.execCount
    running := p.running.getD s.running }

def runStarted (key : String) (code : Text) (time : Nat) : SessionView :=
  { s with
    execCount := s.execCount + 1
    running := true
    transcript := s.transcript.startCell key (s.execCount + 1) code time }

def failureText (failure : Text) : Text :=
  if failure = [] then Transcript.units "Execution interrupted".toList
  else Transcript.units "Execution failed: ".toList ++ failure

/-- The kernel's count matters where this page's started over. -/
def counted (t : Transcript) (key : String) : Option Nat → Transcript
  | some executionCount => t.setCellNumber key executionCount
  | none => t

def withFailure (t : Transcript) : Option Text → Transcript
  | some failure => t.pushOutput (.text .system (failureText failure) none false)
  | none => t

def runFinished (key : String) (executionCount : Option Nat) (failure : Option Text) : SessionView :=
  { s with
    execCount := executionCount.getD s.execCount
    running := false
    transcript := (withFailure (counted s.transcript key executionCount) failure).endCell }

/-- With no cell running, a notice is the most recent one's. -/
def noticeKey (t : Transcript) : Option String :=
  if (t.currentKey.filter (· ≠ "")).isSome then t.currentKey else t.cells.getLast?.map Transcript.Cell.key

def withNotice (t : Transcript) (cls : OutputClass) (text : Text) : Transcript :=
  { { t with currentKey := noticeKey t }.pushOutput (.text cls text none false) with currentKey := t.currentKey }

def noticed (cls : OutputClass) (text : Text) : SessionView :=
  { s with transcript := withNotice s.transcript cls text }

def historyKey (i : Nat) : String := String.ofList ("history-".toList ++ Nat.toDigits 10 i)

/-- The records from the `i`-th on, each replayed as a cell. -/
def replay (t : Transcript) (execCount i : Nat) : List HistoryRecord → Transcript × Nat
  | [] => (t, execCount)
  | record :: more =>
    let inNum := record.executionCount.getD (execCount + 1)
    let counted := if record.executionCount = none then execCount + 1 else execCount
    replay ((t.startCell (historyKey i) inNum record.code record.time).applyMessages record.messages)
      (max counted inNum) (i + 1) more

def hydrated (history : List HistoryRecord) : SessionView :=
  if s.transcript.cells ≠ [] ∨ history = [] then s
  else
    let replayed := replay s.transcript s.execCount 0 history
    { s with execCount := replayed.2, transcript := replayed.1.endCell }

/-! ### Alike -/

section

variable {t u : Transcript}

theorem alike_counted (h : Alike t u) (key : String) (executionCount : Option Nat) :
    Alike (counted t key executionCount) (counted u key executionCount) ∧
      (counted t key executionCount).keys = t.keys := by
  cases executionCount with
  | none => exact ⟨h, rfl⟩
  | some n => exact ⟨h.setCellNumber key n, Transcript.mapCell_keys _ fun _ => rfl⟩

theorem alike_withFailure (h : Alike t u) (failure : Option Text) :
    Alike (withFailure t failure) (withFailure u failure) ∧ (withFailure t failure).keys = t.keys := by
  cases failure with
  | none => exact ⟨h, rfl⟩
  | some failure => exact ⟨h.pushOutput _, Transcript.pushOutput_keys _⟩

theorem alike_withNotice (h : Alike t u) (cls : OutputClass) (text : Text) :
    Alike (withNotice t cls text) (withNotice u cls text) ∧ (withNotice t cls text).keys = t.keys := by
  have hkey : noticeKey t = noticeKey u := by
    have hlast : t.cells.getLast?.map Transcript.Cell.key = u.cells.getLast?.map Transcript.Cell.key := by
      rw [← List.getLast?_map, ← List.getLast?_map]
      exact congrArg List.getLast? h.keys
    rw [noticeKey, noticeKey, h.currentKey, hlast]
  refine ⟨?_, Transcript.pushOutput_keys _⟩
  unfold withNotice
  rw [hkey, ← h.currentKey]
  exact ((h.withCurrentKey _).pushOutput _).withCurrentKey _

theorem historyKey_injective : Function.Injective historyKey := by
  intro i j hij
  have hlists := String.ofList_injective hij
  have hdigits : Nat.toDigits 10 i = Nat.toDigits 10 j := List.append_cancel_left hlists
  have hi : Nat.ofDigitChars 10 (Nat.toDigits 10 i) 0 = i := Nat.ofDigitChars_ten_toDigits
  have hj : Nat.ofDigitChars 10 (Nat.toDigits 10 j) 0 = j := Nat.ofDigitChars_ten_toDigits
  rw [← hi, hdigits, hj]

/-- Each record's cell has a key of its own. -/
theorem replay_keys (t : Transcript) (execCount i : Nat) (history : List HistoryRecord) (hkeys : t.keys.Nodup)
    (hnew : ∀ j, i ≤ j → historyKey j ∉ t.keys) : (replay t execCount i history).1.keys.Nodup := by
  induction history generalizing t execCount i with
  | nil => exact hkeys
  | cons record more ih =>
    let inNum := record.executionCount.getD (execCount + 1)
    have hstarted : (t.startCell (historyKey i) inNum record.code record.time).keys = t.keys ++ [historyKey i] :=
      List.map_append
    have hnodup : (t.startCell (historyKey i) inNum record.code record.time).keys.Nodup := by
      rw [hstarted]
      exact hkeys.append (List.nodup_singleton _) (by simpa using hnew i (Nat.le_refl i))
    have hsame := ((Alike.refl _).applyMessages hnodup record.messages).2
    rw [replay]
    apply ih
    · rw [hsame]
      exact hnodup
    intro j hj
    rw [hsame, hstarted, List.mem_append, List.mem_singleton, not_or]
    refine ⟨hnew j (by omega), fun heq => ?_⟩
    have hij := historyKey_injective heq
    omega

end

end SessionView

/-- A new session's view. -/
def newSessionView (id : String) (status : SessionStatus) : SessionView := { id, status }

def update (state : State) (id : String) (fn : SessionView → SessionView) : State :=
  match state.sessions id with
  | none => state
  | some current => { state with sessions := Function.update state.sessions id (some (fn current)) }

def reducer (state : State) : Action → State
  | .add session =>
    if (state.sessions session.id).isSome then state
    else
      { state with
        sessions := Function.update state.sessions session.id (some session)
        order := state.order ++ [session.id] }
  | .remove id =>
    { sessions := Function.update state.sessions id none
      order := state.order.filter (· ≠ id)
      activeId := if state.activeId = some id then none else state.activeId }
  | .select id => { state with activeId := id }
  | .patch id patch => update state id (·.patched patch)
  | .message id message => update state id fun s => { s with transcript := s.transcript.applyMessage message }
  | .messages id messages => update state id fun s => { s with transcript := s.transcript.applyMessages messages }
  | .runStarted id key code time => update state id (·.runStarted key code time)
  | .runFinished id key executionCount failure => update state id (·.runFinished key executionCount failure)
  | .notice id cls text => update state id (·.noticed cls text)
  | .answerInput id value => update state id fun s => { s with transcript := s.transcript.answerInput value }
  | .clearOutput id => update state id fun s => { s with transcript := s.transcript.clearCells }
  | .hydrate id history => update state id (·.hydrated history)

theorem update_eq (state : State) (id : String) (fn : SessionView → SessionView) :
    update state id fn =
      { state with sessions := Function.update state.sessions id ((state.sessions id).map fn) } := by
  unfold update
  cases hid : state.sessions id with
  | none =>
    have hsame : Function.update state.sessions id none = state.sessions := by rw [← hid, Function.update_eq_self]
    rw [Option.map_none, hsame]
  | some current => rfl

end Jovian.Store
