import Jovian.Client.FrameBatcher
import Jovian.Client.Store
import Jovian.Lib.Transition

/-!
# Playground — sessions on a page, their messages applied once a frame (`Playground.tsx`)

Each session's messages wait in a `FrameBatcher`, and all that wait are applied at once: when a display frame or
a timer comes, and in front of what must come after them. Beside the page stands a plain one, which
applies each message as it comes.

* **`playground_shows`** — whatever the frames, the timers and the user do, the page shows what the plain one
  does, once what waits is applied; and what waits has a frame and a timer to come.
-/

namespace Jovian.Playground

open Transcript (Text OutputClass WireMessage Alike)
open Store (State SessionView SessionStatus Patch HistoryRecord reducer newSessionView)
open Transition (System)

/-! ## The page -/

/-- What a session's event stream says; an install's lines are kept apart. -/
inductive StreamEvent where
  | message (message : WireMessage)
  | exit (reason : Option Text)
  | packages
  | stopped
  | restarted
  | connectionError (message : Text)
  | other

inductive Event where
  | receives (id : String) (payload : StreamEvent)
  | frameRuns (id : String) (handle : Nat)
  | timerRuns (id : String) (handle : Nat)
  /-- The effects of a render. -/
  | rendered
  | add (id : String) (status : SessionStatus)
  | select (id : Option String)
  | remove (id : String)
  /-- A poll's answer, or a restart. -/
  | patch (id : String) (patch : Patch)
  | history (id : String) (records : List HistoryRecord)
  | runs (id key : String) (code : Text) (time : Nat)
  | ran (id key : String) (executionCount : Option Nat) (failure : Option Text)
  | failed (id key : String) (error : Text)
  /-- The page's own. -/
  | notice (id : String) (cls : OutputClass) (text : Text)
  | answers (id : String) (value : Text)
  | clears (id : String)

/-- A batcher goes with each event stream that is open. -/
structure Page where
  state : State := {}
  batchers : String → Option (FrameBatcher WireMessage) := fun _ => none

def exitText (reason : Option Text) : Text :=
  Transcript.units "The kernel has ended".toList ++
    (match reason.filter (· ≠ []) with
      | some reason => Transcript.units " (".toList ++ reason ++ Transcript.units ")".toList
      | none => []) ++
    Transcript.units ". Restart starts a new one.".toList

/-- What the stream says of the session, other than its messages. -/
def told (state : State) (id : String) : StreamEvent → State
  | .exit reason =>
    reducer (reducer state (.patch id { status := some .crashed, running := some false }))
      (.notice id .error (exitText reason))
  | .stopped => reducer state (.patch id { status := some .stopped, running := some false })
  | .restarted =>
    reducer state (.patch id { status := some .ready, execCount := some 0, running := some false })
  | .connectionError message =>
    reducer state (.notice id .error (Transcript.units "Connection error: ".toList ++ message))
  | _ => state

/-- A request that failed ends its run. -/
def requestFailed (state : State) (id key : String) (error : Text) : State :=
  reducer (reducer state (.runFinished id key none none))
    (.notice id .error (Transcript.units "Request failed: ".toList ++ error))

/-- What waits for a session. -/
def waitingIn (b : Option (FrameBatcher WireMessage)) : List WireMessage := (b.map FrameBatcher.pending).getD []

namespace Page

variable (p : Page)

def waiting (id : String) : List WireMessage := waitingIn (p.batchers id)

def deliver (id : String) (handed : FrameBatcher WireMessage × List WireMessage) : Page where
  state := if handed.2 = [] then p.state else reducer p.state (.messages id handed.2)
  batchers := Function.update p.batchers id (some handed.1)

def flushMessages (id : String) : Page :=
  match p.batchers id with
  | none => p
  | some b => p.deliver id b.flush

/-- Applied after the messages that came before. -/
def dispatched (id : String) (f : State → State) : Page :=
  { p.flushMessages id with state := f (p.flushMessages id).state }

end Page

def step (p : Page) : Event → Page
  | .receives id payload =>
    match p.batchers id with
    | none => p
    | some b =>
      match payload with
      | .message message => { p with batchers := Function.update p.batchers id (some (b.push message)) }
      | payload => p.dispatched id fun state => told state id payload
  | .frameRuns id handle =>
    match p.batchers id with
    | none => p
    | some b => p.deliver id (b.frameRuns handle)
  | .timerRuns id handle =>
    match p.batchers id with
    | none => p
    | some b => p.deliver id (b.timerRuns handle)
  | .rendered =>
    { p with batchers := fun id => if p.state.order.contains id then some ((p.batchers id).getD {}) else none }
  | .add id status => { p with state := reducer p.state (.add (newSessionView id status)) }
  | .select id => { p with state := reducer p.state (.select id) }
  | .remove id => { p with state := reducer p.state (.remove id) }
  | .patch id patch => { p with state := reducer p.state (.patch id patch) }
  | .history id records => { p with state := reducer p.state (.hydrate id records) }
  | .runs id key code time =>
    if (p.state.sessions id).isSome then p.dispatched id fun state => reducer state (.runStarted id key code time)
    else p
  | .ran id key executionCount failure =>
    p.dispatched id fun state => reducer state (.runFinished id key executionCount failure)
  | .failed id key error => p.dispatched id fun state => requestFailed state id key error
  | .notice id cls text => { p with state := reducer p.state (.notice id cls text) }
  | .answers id value => { p with state := reducer p.state (.answerInput id value) }
  | .clears id => p.dispatched id fun state => reducer state (.clearOutput id)

/-! ## The plain page -/

/-- A page that applies each message as it comes. -/
structure Plain where
  state : State := {}
  sources : String → Bool := fun _ => false

def plainStep (q : Plain) : Event → Plain
  | .receives id payload =>
    if q.sources id then
      match payload with
      | .message message => { q with state := reducer q.state (.message id message) }
      | payload => { q with state := told q.state id payload }
    else q
  | .frameRuns _ _ | .timerRuns _ _ => q
  | .rendered => { q with sources := fun id => q.state.order.contains id }
  | .add id status => { q with state := reducer q.state (.add (newSessionView id status)) }
  | .select id => { q with state := reducer q.state (.select id) }
  | .remove id => { q with state := reducer q.state (.remove id) }
  | .patch id patch => { q with state := reducer q.state (.patch id patch) }
  | .history id records => { q with state := reducer q.state (.hydrate id records) }
  | .runs id key code time =>
    if (q.state.sessions id).isSome then { q with state := reducer q.state (.runStarted id key code time) } else q
  | .ran id key executionCount failure =>
    { q with state := reducer q.state (.runFinished id key executionCount failure) }
  | .failed id key error => { q with state := requestFailed q.state id key error }
  | .notice id cls text => { q with state := reducer q.state (.notice id cls text) }
  | .answers id value => { q with state := reducer q.state (.answerInput id value) }
  | .clears id => { q with state := reducer q.state (.clearOutput id) }

/-- The two, side by side. -/
def pages : System (Page × Plain) Event := .ofFn ({}, {}) fun s e => (step s.1 e, plainStep s.2 e)

/-- A run's key is new; and what the page does without applying what waits, it does when nothing does. -/
def Allowed (s : Page × Plain) : Event → Prop
  | .runs id key _ _ => ∀ v, s.1.state.sessions id = some v → key ∉ v.transcript.keys
  | .history id _ | .notice id _ _ | .answers id _ => s.1.waiting id = []
  | _ => True

/-- The same session, its transcript alike. -/
def AlikeView (v w : SessionView) : Prop := ∃ u, Alike v.transcript u ∧ w = { v with transcript := u }

structure Shown (p : Page) (q : Plain) : Prop where
  order : p.state.order = q.state.order
  activeId : p.state.activeId = q.state.activeId
  /-- Once what waits is applied. -/
  views : ∀ id, Option.Rel AlikeView ((p.flushMessages id).state.sessions id) (q.state.sessions id)
  waits : ∀ id b, p.batchers id = some b → b.pending ≠ [] → ∃ frame timer, b.frames = [frame] ∧ b.timers = [timer]
  idle : ∀ id b, p.batchers id = some b → b.pending = [] → b.frames = [] ∧ b.timers = []

/-! ## Behind by what waits -/

open Transcript (applyMessage)

/-- The plain page's view, with what waits applied to one that is alike. -/
def Behind (waiting : List WireMessage) (v w : SessionView) : Prop :=
  ∃ u, Alike v.transcript u ∧ v.transcript.keys.Nodup ∧ w = { v with transcript := waiting.foldl applyMessage u }

namespace Behind

variable {waiting : List WireMessage} {v w : SessionView}

theorem new (waiting : List WireMessage) (id : String) (status : SessionStatus) :
    Behind waiting (newSessionView id status) (newSessionView id status) := by
  refine ⟨Transcript.emptyTranscript, .refl _, List.nodup_nil, ?_⟩
  rw [Transcript.foldl_applyMessage_nowhere rfl]
  rfl

theorem push (h : Behind waiting v w) (message : WireMessage) :
    Behind (waiting ++ [message]) v { w with transcript := w.transcript.applyMessage message } := by
  obtain ⟨u, hu, hkeys, rfl⟩ := h
  refine ⟨u, hu, hkeys, ?_⟩
  rw [List.foldl_append]
  rfl

/-- What waits is applied at once on the one side, and was one by one on the other. -/
theorem applied (h : Behind waiting v w) :
    Behind [] { v with transcript := v.transcript.applyMessages waiting } w := by
  obtain ⟨u, hu, hkeys, rfl⟩ := h
  obtain ⟨halike, hsame⟩ := hu.applyMessages hkeys waiting
  refine ⟨_, halike, ?_, rfl⟩
  show (v.transcript.applyMessages waiting).keys.Nodup
  rwa [hsame]

theorem patched (h : Behind waiting v w) (patch : Patch) : Behind waiting (v.patched patch) (w.patched patch) := by
  obtain ⟨u, hu, hkeys, rfl⟩ := h
  exact ⟨u, hu, hkeys, rfl⟩

theorem runStarted (h : Behind [] v w) {key : String} (hkey : key ∉ v.transcript.keys) (code : Text) (time : Nat) :
    Behind [] (v.runStarted key code time) (w.runStarted key code time) := by
  obtain ⟨u, hu, hkeys, rfl⟩ := h
  refine ⟨_, hu.startCell key (v.execCount + 1) code time, ?_, rfl⟩
  show ((v.transcript.cells ++ [_]).map Transcript.Cell.key).Nodup
  rw [List.map_append]
  exact hkeys.append (List.nodup_singleton _) (by simpa using hkey)

theorem runFinished (h : Behind [] v w) (key : String) (executionCount : Option Nat) (failure : Option Text) :
    Behind [] (v.runFinished key executionCount failure) (w.runFinished key executionCount failure) := by
  obtain ⟨u, hu, hkeys, rfl⟩ := h
  obtain ⟨hcounted, hcountedKeys⟩ := SessionView.alike_counted hu key executionCount
  obtain ⟨halike, hsame⟩ := SessionView.alike_withFailure hcounted failure
  refine ⟨_, halike.withCurrentKey none, ?_, rfl⟩
  show (SessionView.withFailure (SessionView.counted v.transcript key executionCount) failure).keys.Nodup
  rwa [hsame, hcountedKeys]

theorem noticed (h : Behind [] v w) (cls : OutputClass) (text : Text) :
    Behind [] (v.noticed cls text) (w.noticed cls text) := by
  obtain ⟨u, hu, hkeys, rfl⟩ := h
  obtain ⟨halike, hsame⟩ := SessionView.alike_withNotice hu cls text
  refine ⟨_, halike, ?_, rfl⟩
  show (SessionView.withNotice v.transcript cls text).keys.Nodup
  rwa [hsame]

theorem answerInput (h : Behind [] v w) (value : Text) :
    Behind [] { v with transcript := v.transcript.answerInput value }
      { w with transcript := w.transcript.answerInput value } := by
  obtain ⟨u, hu, hkeys, rfl⟩ := h
  have hsame : (v.transcript.answerInput value).keys = v.transcript.keys := Transcript.mapCell_keys _ fun _ => rfl
  refine ⟨_, hu.answerInput value, ?_, rfl⟩
  show (v.transcript.answerInput value).keys.Nodup
  rwa [hsame]

theorem clearOutput (h : Behind [] v w) :
    Behind [] { v with transcript := v.transcript.clearCells } { w with transcript := w.transcript.clearCells } := by
  obtain ⟨u, hu, hkeys, rfl⟩ := h
  exact ⟨_, hu.clearCells, List.nodup_nil, rfl⟩

/-- With no cells, alike is the same. -/
theorem hydrated (h : Behind [] v w) (history : List HistoryRecord) :
    Behind [] (v.hydrated history) (w.hydrated history) := by
  obtain ⟨u, hu, hkeys, rfl⟩ := h
  by_cases hcells : v.transcript.cells = []
  · obtain rfl : v.transcript = u := by
      have hcells' := hu.cells_eq_nil.mp hcells
      have hkey := hu.currentKey
      have hnext := hu.nextOutputId
      cases hv : v.transcript
      cases u
      simp_all
    refine ⟨(v.hydrated history).transcript, .refl _, ?_, rfl⟩
    unfold SessionView.hydrated
    split
    · exact hkeys
    · refine SessionView.replay_keys _ _ _ history hkeys fun j _ => ?_
      rw [Transcript.keys, hcells]
      exact List.not_mem_nil
  · have hcells' : u.cells ≠ [] := fun hnil => hcells (hu.cells_eq_nil.mpr hnil)
    have hshown : v.hydrated history = v := if_pos (.inl hcells)
    have hshown' : SessionView.hydrated { v with transcript := u } history = { v with transcript := u } :=
      if_pos (.inl hcells')
    rw [hshown]
    exact ⟨u, hu, hkeys, hshown'⟩

end Behind

/-! ## The two pages, step by step -/

/-- A session on the two pages, with its batcher and its event stream. -/
structure SimAt (b : Option (FrameBatcher WireMessage)) (source : Bool) (v w : Option SessionView) : Prop where
  source : source = b.isSome
  scheduled : ∀ b', b = some b' → b'.Scheduled
  view : Option.Rel (Behind (waitingIn b)) v w

structure Sim (p : Page) (q : Plain) : Prop where
  order : p.state.order = q.state.order
  activeId : p.state.activeId = q.state.activeId
  listed : ∀ id, (p.state.sessions id).isSome → id ∈ p.state.order
  sessions : ∀ id, SimAt (p.batchers id) (q.sources id) (p.state.sessions id) (q.state.sessions id)

theorem sim_init : Sim {} {} where
  order := rfl
  activeId := rfl
  listed _ h := absurd h Bool.false_ne_true
  sessions _ := ⟨rfl, fun _ h => absurd h.symm (Option.some_ne_none _), .none⟩

theorem SimAt.map {b : Option (FrameBatcher WireMessage)} {source : Bool} {v w : Option SessionView}
    (h : SimAt b source v w) {f g : SessionView → SessionView} {b' : Option (FrameBatcher WireMessage)}
    (hsource : b'.isSome = b.isSome) (hscheduled : ∀ b'', b' = some b'' → b''.Scheduled)
    (hfg : ∀ v' w', v = some v' → Behind (waitingIn b) v' w' → Behind (waitingIn b') (f v') (g w')) :
    SimAt b' source (v.map f) (w.map g) := by
  refine ⟨h.source.trans hsource.symm, hscheduled, ?_⟩
  have hview := h.view
  cases hview with
  | none => exact .none
  | some hbehind => exact .some (hfg _ _ rfl hbehind)

namespace Sim

variable {p : Page} {q : Plain} {id : String}

/-- What happens to one session. -/
theorem set (h : Sim p q) {b : Option (FrameBatcher WireMessage)} {v w : Option SessionView}
    (hv : v.isSome → (p.state.sessions id).isSome) (hat : SimAt b (q.sources id) v w) :
    Sim { state := { p.state with sessions := Function.update p.state.sessions id v },
          batchers := Function.update p.batchers id b }
      { q with state := { q.state with sessions := Function.update q.state.sessions id w } } := by
  refine ⟨h.order, h.activeId, fun id' hid' => ?_, fun id' => ?_⟩
  · by_cases hne : id' = id
    · subst hne
      exact h.listed id' (hv (by simpa using hid'))
    · exact h.listed id' (by simpa [Function.update_of_ne hne] using hid')
  · show SimAt (Function.update p.batchers id b id') (q.sources id') (Function.update p.state.sessions id v id')
      (Function.update q.state.sessions id w id')
    by_cases hne : id' = id
    · subst hne
      rw [Function.update_self, Function.update_self, Function.update_self]
      exact hat
    · rw [Function.update_of_ne hne, Function.update_of_ne hne, Function.update_of_ne hne]
      exact h.sessions id'

/-- A session is changed on both sides, and stays as far behind. -/
theorem update (h : Sim p q) {f g : SessionView → SessionView}
    (hfg : ∀ v w, p.state.sessions id = some v → Behind (p.waiting id) v w → Behind (p.waiting id) (f v) (g w)) :
    Sim { p with state := Store.update p.state id f } { q with state := Store.update q.state id g } := by
  have hat := (h.sessions id).map rfl (h.sessions id).scheduled hfg
  have hset := h.set (by simp) hat
  rw [Function.update_eq_self] at hset
  rw [Store.update_eq, Store.update_eq]
  exact hset

theorem push (h : Sim p q) {b : FrameBatcher WireMessage} (hb : p.batchers id = some b) (message : WireMessage) :
    Sim { p with batchers := Function.update p.batchers id (some (b.push message)) }
      { q with state := reducer q.state (.message id message) } := by
  have hat := h.sessions id
  rw [hb] at hat
  have hpending : waitingIn (some (b.push message)) = waitingIn (some b) ++ [message] := FrameBatcher.push_pending b message
  have hpushed : SimAt (some (b.push message)) (q.sources id) ((p.state.sessions id).map fun s => s)
      ((q.state.sessions id).map fun s => { s with transcript := s.transcript.applyMessage message }) := by
    refine hat.map rfl (fun b' hb' => ?_) fun v w _ hbehind => ?_
    · obtain rfl := Option.some.inj hb'
      exact FrameBatcher.push_scheduled (hat.scheduled b rfl) message
    · rw [hpending]
      exact hbehind.push message
  have hset := h.set (by simp) hpushed
  rw [Option.map_id', Function.update_eq_self] at hset
  show Sim _ { q with state := Store.update q.state id _ }
  rw [Store.update_eq]
  exact hset

/-- All that waits for a session is handed over. -/
theorem deliver (h : Sim p q) {b : FrameBatcher WireMessage} (hb : p.batchers id = some b)
    {handed : FrameBatcher WireMessage × List WireMessage} (hscheduled : handed.1.Scheduled)
    (hempty : handed.1.pending = []) (hall : handed.2 = b.pending) :
    Sim (p.deliver id handed) q ∧ (p.deliver id handed).waiting id = [] := by
  have hat := h.sessions id
  rw [hb] at hat
  have hnone : waitingIn (some handed.1) = [] := hempty
  have happlied : SimAt (some handed.1) (q.sources id)
      ((p.state.sessions id).map fun s => { s with transcript := s.transcript.applyMessages handed.2 })
      ((q.state.sessions id).map fun s => s) := by
    refine hat.map rfl (fun b' hb' => ?_) fun v w _ hbehind => ?_
    · obtain rfl := Option.some.inj hb'
      exact hscheduled
    · rw [hnone, hall]
      exact hbehind.applied
  have hset := h.set (by simp) happlied
  rw [Option.map_id', Function.update_eq_self] at hset
  have hstate : (p.deliver id handed).state =
      Store.update p.state id fun s => { s with transcript := s.transcript.applyMessages handed.2 } := by
    show (if handed.2 = [] then p.state else reducer p.state (.messages id handed.2)) = _
    split
    · next hnil =>
      simp only [hnil, Transcript.applyMessages, Store.update_eq, Option.map_id', Function.update_eq_self]
    · rfl
  constructor
  · show Sim { state := (p.deliver id handed).state, batchers := Function.update p.batchers id (some handed.1) } q
    rw [hstate, Store.update_eq]
    exact hset
  · show waitingIn (Function.update p.batchers id (some handed.1) id) = []
    rw [Function.update_self]
    exact hempty

theorem flushMessages (h : Sim p q) (id : String) :
    Sim (p.flushMessages id) q ∧ (p.flushMessages id).waiting id = [] := by
  unfold Page.flushMessages
  split
  · next hb =>
    refine ⟨h, ?_⟩
    rw [Page.waiting, hb]
    rfl
  · next b hb =>
    exact h.deliver hb (FrameBatcher.flush_scheduled ((h.sessions id).scheduled b hb)) rfl rfl

end Sim

end Jovian.Playground
