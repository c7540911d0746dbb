import Jovian.Kernel.ServerQueues

/-!
# Jovian — replies to one client stay in the order it asked

The shell messages are handed over in the order of their arrival, and each when those before
it are done with. Two things run side by side by design: the busy-request thread answers
while an `execute_request` runs, and `abortQueue` answers what is queued behind a failed one
before that one's reply goes out.

What the server does not wait for is the busy-request thread: once the execution is over,
the main thread takes the next shell message whether or not that thread is through with the
ones before it (`busy_request_overtaken`).

* **`replies_in_order`** — in every run in which it does wait (`patient`), a message is
  handed over when every one before it is done with, but for the execution under way.
-/

namespace Jovian.Server

/-! ## What is promised -/

/-- `a` has been handed over, and what it was handed to is done with it. -/
def Done (log : List Entry) (a : Message) : Prop :=
  (∃ route, .handed a route ∈ log) ∧ .finished a ∈ log

/-- `a` is an `execute_request` that is under way. -/
def Running (log : List Entry) (a : Message) : Prop :=
  a.msgType = some .executeRequest ∧ .handed a .shellListener ∈ log ∧ .finished a ∉ log

/-- The replies to a client stay in the order it asked. -/
structure InOrder (s : State) : Prop where
  /-- A message is handed to its handler when those before it are done with; only the
  busy-request thread does not wait for the execution under way. -/
  handled : ∀ before b route after, s.log = before ++ .handed b route :: after →
    route = .shellListener ∨ route = .busyHandler → ∀ a ∈ s.arrivedShell, a.id < b.id →
      Done before a ∨ Running before a ∧ route = .busyHandler
  /-- What is aborted, and so handed to no handler, is answered behind those before it, and
  ahead of the reply of the execution that failed. -/
  aborted : ∀ before b after, s.log = before ++ .handed b .abortCallback :: after →
    ∀ a ∈ s.arrivedShell, a.id < b.id → Done before a ∨ Running before a

/-- The main thread's next step takes a shell message. -/
def takesShell (s : State) (a b : Bool) : Bool :=
  match s.main with
  | .pollOnce =>
    !s.requestStop && s.watcher = .waiting && s.deferredControl = [] && s.deferredShell ≠ []
  | .polling => b && s.shell ≠ [] && !(a && s.control ≠ [])
  | .abortDeferred _ _ => s.deferredShell ≠ []
  | .abortSocket _ => s.shell ≠ []
  | _ => false

/-- The main thread takes a shell message only while the busy-request thread has none; and no
shell message comes whose type cannot be read. -/
def patient (s : State) : Event → Bool
  | .arriveShell request => request.msgType.isSome
  | .main a b => !takesShell s a b || (s.busyQueue = [] && s.busyThread = none)
  | _ => true

/-! ## Who has which message -/

/-- The execution the main thread is in. -/
def MainPc.underWay : MainPc → Option Message
  | .executing m | .ending m _ | .abortDeferred m _ | .abortingDeferred m _ _ | .abortSocket m
  | .abortingSocket m _ | .replying m => some m
  | _ => none

/-- The message the main thread has in hand besides. -/
def MainPc.inHand : MainPc → Option Message
  | .handling m | .abortingDeferred _ _ m | .abortingSocket _ m => some m
  | _ => none

structure Held (s : State) : Prop where
  /-- What has arrived waits, is in hand, or is done with. -/
  settled : ∀ a ∈ s.arrivedShell, a.msgType ≠ none →
    a ∈ s.shellLine ∨ s.busyThread = some a ∨ s.main.underWay = some a ∨
      s.main.inHand = some a ∨ .finished a ∈ s.log
  /-- The busy-request thread's messages came before the one the main thread has in hand. -/
  behind : ∀ m ∈ s.arrivedShell, s.main.inHand = some m → ∀ b ∈ s.busyQueue, b.id < m.id
  execution : ∀ m, s.main.underWay = some m → m.msgType = some .executeRequest
  /-- A listener was given what the main thread handles. -/
  listened : ∀ m, s.main.underWay = some m ∨ s.main = .handling m →
    .handed m .shellListener ∈ s.log ∨ .handed m .controlListener ∈ s.log
  /-- Only what was handed over is in hand, or done with. -/
  handed : ∀ m, s.busyThread = some m ∨ s.main.inHand = some m ∨
    s.watcher = .interrupting m ∨ .finished m ∈ s.log → ∃ route, .handed m route ∈ s.log

theorem held_init : Held {} := by
  constructor <;> simp [MainPc.underWay, MainPc.inHand]

variable {s : State}

/-! ## The watcher and the busy-request thread -/

theorem Held.arriveShell (h : Held s) (accepts : MsgType → Bool) (request : Request)
    (hbusy : ∀ b ∈ s.busyQueue, b.id < s.arrivals) :
    Held (step accepts s (.arriveShell request)) := by
  refine ⟨?_, ?_, h.execution, h.listened, h.handed⟩
  · intro a ha hread
    rcases List.mem_append.mp ha with ha | ha
    · refine (h.settled a ha hread).imp_left fun hline => ?_
      simp only [step, Queues.shellLine, List.mem_append] at hline ⊢
      grind
    · left
      simp only [step, Queues.shellLine, List.mem_append]
      grind
  · intro m hm hin b hb
    rcases List.mem_append.mp hm with hm | hm
    · exact h.behind m hm hin b hb
    · obtain rfl := List.mem_singleton.mp hm
      exact hbusy b hb

/-- One more entry of the log, where only what was handed over is done with. -/
theorem Held.note (entry : Entry) (h : Held s)
    (hentry : ∀ m, entry = .finished m → ∃ route, .handed m route ∈ s.log) :
    Held { s with log := s.log ++ [entry] } where
  settled a ha hread :=
    (h.settled a ha hread).imp_right (.imp_right (.imp_right (.imp_right (List.mem_append_left _))))
  behind := h.behind
  execution := h.execution
  listened m hm := (h.listened m hm).imp (List.mem_append_left _) (List.mem_append_left _)
  handed m hm := by
    have hbefore : ∃ route, .handed m route ∈ s.log := by
      rcases hm with hm | hm | hm | hm
      · exact h.handed m (.inl hm)
      · exact h.handed m (.inr (.inl hm))
      · exact h.handed m (.inr (.inr (.inl hm)))
      · rcases List.mem_append.mp hm with hm | hm
        · exact h.handed m (.inr (.inr (.inr hm)))
        · exact hentry m (List.mem_singleton.mp hm).symm
    exact hbefore.imp fun _ hlog => List.mem_append_left _ hlog

/-- What the watcher reads stays in the line, if its type can be read. -/
theorem Held.watched {watcher : WatcherPc}
    {control deferredControl droppedControl shell busyQueue deferredShell droppedShell :
      List Message}
    (h : Held s)
    (hline : ∀ a ∈ s.shellLine, a.msgType ≠ none → a ∈ busyQueue ++ (deferredShell ++ shell))
    (hbehind : ∀ m ∈ s.arrivedShell, s.main.inHand = some m → ∀ b ∈ busyQueue, b.id < m.id)
    (hwatcher : ∀ m, watcher = .interrupting m → ∃ route, .handed m route ∈ s.log) :
    Held { s with
      control, deferredControl, droppedControl, shell, busyQueue, deferredShell, droppedShell
      watcher } where
  settled a ha hread := (h.settled a ha hread).imp_left fun hmem => hline a hmem hread
  behind := hbehind
  execution := h.execution
  listened := h.listened
  handed m hm := by
    rcases hm with hm | hm | hm | hm
    · exact h.handed m (.inl hm)
    · exact h.handed m (.inr (.inl hm))
    · exact hwatcher m hm
    · exact h.handed m (.inr (.inr (.inr hm)))

/-- The watcher goes on, with no message of its own. -/
theorem Held.watch_to {watcher : WatcherPc} {control deferredControl droppedControl : List Message}
    (h : Held s) (hwatcher : ∀ m, watcher ≠ .interrupting m) :
    Held { s with control, deferredControl, droppedControl, watcher } :=
  h.watched (fun _ ha _ => ha) h.behind fun m hm => absurd hm (hwatcher m)

/-- The first of the socket is dropped, or waits further on in the line. -/
theorem Held.readShell {m : Message} {rest busyQueue deferredShell droppedShell : List Message}
    {watcher : WatcherPc} (h : Held s) (hnothing : s.main.inHand = none)
    (hshell : s.shell = m :: rest) (hwatcher : ∀ m, watcher ≠ .interrupting m)
    (hbusy : s.busyQueue ⊆ busyQueue) (hdeferred : s.deferredShell ⊆ deferredShell)
    (hm : m.msgType ≠ none → m ∈ busyQueue ∨ m ∈ deferredShell) :
    Held { s with shell := rest, busyQueue, deferredShell, droppedShell, watcher } := by
  refine h.watched (fun a ha hread => ?_) (fun _ _ hin => ?_) fun m hm => absurd hm (hwatcher m)
  · have hcases : a ∈ s.busyQueue ∨ a ∈ s.deferredShell ∨ a = m ∨ a ∈ rest := by
      simpa [Queues.shellLine, hshell] using ha
    rw [List.mem_append, List.mem_append]
    rcases hcases with ha | ha | rfl | ha
    · exact .inl (hbusy ha)
    · exact .inr (.inl (hdeferred ha))
    · exact (hm hread).imp_right .inl
    · exact .inr (.inr ha)
  · rw [hnothing] at hin
    cases hin

theorem watch_held (h : Held s) (ht : Threads s) (accepts : MsgType → Bool) :
    Held (watch accepts s) := by
  have hnothing : s.watcher = .shell → s.main.inHand = none := fun hwatcher => by
    rcases ht.watcher (by simp [hwatcher]) with ⟨m, hm⟩ | ⟨m, error, hm⟩ <;>
      simp [hm, MainPc.inHand]
  have hstep := watchStep accepts s
  generalize watch accepts s = s' at hstep ⊢
  cases hstep with
  | stay => exact h
  | start | noControl | dropControl | deferControl | noShell => exact h.watch_to (by simp)
  | interrupt m =>
    have hlog : Held (s.hand m .interruptHandler) := h.note _ (by simp)
    refine hlog.watched (fun _ ha _ => ha) hlog.behind fun m' hm' => ⟨.interruptHandler, ?_⟩
    obtain rfl := WatcherPc.interrupting.inj hm'
    exact List.mem_concat_self
  | interrupted m hwatcher =>
    have hlog : Held (s.finish m) := h.note _ fun m' hm' => by
      obtain rfl := Entry.finished.inj hm'
      exact h.handed m (.inr (.inr (.inl hwatcher)))
    exact hlog.watch_to (by simp)
  | dropShell m rest hwatcher hshell htype =>
    exact h.readShell (hnothing hwatcher) hshell (by simp) (List.Subset.refl _)
      (List.Subset.refl _) fun hread => absurd htype hread
  | toBusy m rest t hwatcher hshell =>
    exact h.readShell (hnothing hwatcher) hshell (by simp) (List.subset_append_left _ _)
      (List.Subset.refl _) fun _ => .inl List.mem_concat_self
  | deferShell m rest hwatcher hshell =>
    exact h.readShell (hnothing hwatcher) hshell (by simp) (List.Subset.refl _)
      (List.subset_append_left _ _) fun _ => .inr List.mem_concat_self

/-- The busy-request thread takes the first of its messages. -/
theorem Held.takeBusy {m : Message} {rest : List Message} (h : Held s)
    (hthread : s.busyThread = none) (hbusy : s.busyQueue = m :: rest) :
    Held { s.hand m .busyHandler with busyQueue := rest, busyThread := some m } := by
  have hlog : Held (s.hand m .busyHandler) := h.note _ (by simp)
  refine ⟨fun a ha hread => ?_, fun m' hm' hin b hb => ?_, h.execution, hlog.listened,
    fun m' hm' => ?_⟩
  · rcases hlog.settled a ha hread with hline | hold | hmain
    · have hcases : a = m ∨ a ∈ rest ∨ a ∈ s.deferredShell ∨ a ∈ s.shell := by
        simpa [Queues.shellLine, State.hand, hbusy] using hline
      rcases hcases with rfl | hrest
      · exact .inr (.inl rfl)
      · exact .inl (by simpa [Queues.shellLine, State.hand] using hrest)
    · have : s.busyThread = some a := hold
      rw [hthread] at this
      cases this
    · exact .inr (.inr hmain)
  · exact h.behind m' hm' hin b (by rw [hbusy]; exact List.mem_cons_of_mem m hb)
  · rcases hm' with hm' | hm'
    · obtain rfl := Option.some.inj hm'
      exact ⟨.busyHandler, List.mem_concat_self⟩
    · exact hlog.handed m' (.inr hm')

/-- It is done with the one it has. -/
theorem Held.finishBusy {m : Message} (h : Held s) (hthread : s.busyThread = some m) :
    Held { s.finish m with busyThread := none } := by
  have hlog : Held (s.finish m) := h.note _ fun m' hm' => by
    obtain rfl := Entry.finished.inj hm'
    exact h.handed m (.inl hthread)
  refine ⟨fun a ha hread => ?_, h.behind, h.execution, hlog.listened, fun m' hm' => ?_⟩
  · rcases hlog.settled a ha hread with hline | hold | hmain
    · exact .inl hline
    · obtain rfl : m = a := Option.some.inj (hthread.symm.trans hold)
      exact .inr (.inr (.inr (.inr List.mem_concat_self)))
    · exact .inr (.inr hmain)
  · rcases hm' with hm' | hm'
    · cases hm'
    · exact hlog.handed m' (.inr hm')

theorem answerBusy_held (h : Held s) : Held (answerBusy s) := by
  have hstep := busyStep s
  generalize answerBusy s = s' at hstep ⊢
  cases hstep with
  | stay => exact h
  | take m rest hthread hbusy => exact h.takeBusy hthread hbusy
  | answered m hthread => exact h.finishBusy hthread

/-! ## The main thread -/

theorem exists_handed {log : List Entry} {m d : Message} {route : Route}
    (h : (∃ route', .handed m route' ∈ log) ∨ m = d) :
    ∃ route', .handed m route' ∈ log ++ [.handed d route] := by
  rcases h with ⟨route', h⟩ | rfl
  · exact ⟨route', List.mem_append_left _ h⟩
  · exact ⟨route, List.mem_append_right _ (List.mem_singleton.mpr rfl)⟩

/-- What is deferred, or in the socket, came after what the busy-request thread has. -/
theorem busy_first {q : Queues} (hl : Lines q) (hn : Numbered q) {b m : Message}
    (hb : b ∈ q.busyQueue) (hm : m ∈ q.deferredShell ∨ m ∈ q.shell) : b.id < m.id :=
  (List.pairwise_append.mp (hl.shell_sorted hn)).2.2 b hb m (List.mem_append.mpr hm)

/-- A control message is not a shell message. -/
theorem control_not_shell {q : Queues} (hl : Lines q) (hn : Numbered q) {m : Message}
    (hm : m ∈ q.deferredControl ∨ m ∈ q.control) : m ∉ q.arrivedShell := fun hshell =>
  hn.apart m hshell m (hl.control.subset (List.mem_append.mpr hm)) rfl

/-- The main thread goes on with nothing in hand: what it had is done with, or is the execution
that is under way. -/
theorem Held.advance (done : List Message) (watching requestStop : Bool) (pc : MainPc)
    (h : Held s) (hin : pc.inHand = none)
    (hkeeps : ∀ a, s.main.underWay = some a ∨ s.main.inHand = some a → a.msgType ≠ none →
      pc.underWay = some a ∨ a ∈ done)
    (hdone : ∀ a ∈ done, s.main.underWay = some a ∨ s.main.inHand = some a)
    (hunder : ∀ a, pc.underWay = some a → s.main.underWay = some a ∨ s.main = .handling a)
    (hexecution : ∀ a, pc.underWay = some a → a.msgType = some .executeRequest) :
    Held { s with log := s.log ++ done.map .finished, watching, requestStop, main := pc } where
  settled a ha hread := by
    have hkept (hmain : s.main.underWay = some a ∨ s.main.inHand = some a) :
        pc.underWay = some a ∨ .finished a ∈ s.log ++ done.map .finished :=
      (hkeeps a hmain hread).imp_right fun hmem =>
        List.mem_append_right _ (List.mem_map_of_mem hmem)
    rcases h.settled a ha hread with hline | hthread | hmain | hmain | hfinished
    · exact .inl hline
    · exact .inr (.inl hthread)
    · exact .inr (.inr ((hkept (.inl hmain)).imp_right .inr))
    · exact .inr (.inr ((hkept (.inr hmain)).imp_right .inr))
    · exact .inr (.inr (.inr (.inr (List.mem_append_left _ hfinished))))
  behind m _ hm := by
    rw [hin] at hm
    cases hm
  execution := hexecution
  listened m hm := by
    have hbefore : s.main.underWay = some m ∨ s.main = .handling m := by
      rcases hm with hm | rfl
      · exact hunder m hm
      · cases hin
    exact (h.listened m hbefore).imp (List.mem_append_left _) (List.mem_append_left _)
  handed m hm := by
    have hbefore : ∃ route, .handed m route ∈ s.log := by
      rcases hm with hm | hm | hm | hm
      · exact h.handed m (.inl hm)
      · rw [hin] at hm
        cases hm
      · exact h.handed m (.inr (.inr (.inl hm)))
      · rcases List.mem_append.mp hm with hm | hm
        · exact h.handed m (.inr (.inr (.inr hm)))
        · obtain ⟨d, hd, rfl⟩ : ∃ d ∈ done, d = m := by simpa using hm
          rcases hdone d hd with hunder | hin
          · exact (h.listened d (.inl hunder)).elim (fun hlog => ⟨_, hlog⟩) fun hlog => ⟨_, hlog⟩
          · exact h.handed d (.inr (.inl hin))
    exact hbefore.imp fun _ hlog => List.mem_append_left _ hlog

/-- It goes on with what it had, if with anything. -/
theorem Held.moveMain (watching requestStop : Bool) {pc : MainPc} (h : Held s)
    (hin : pc.inHand = none) (hunder : pc.underWay = s.main.underWay)
    (hnothing : s.main.inHand = none) :
    Held { s with watching, requestStop, main := pc } := by
  have hmoved := h.advance [] watching requestStop pc hin
    (fun a ha _ => .inl (by simpa [hunder, hnothing] using ha)) (by simp)
    (fun a ha => .inl (hunder ▸ ha)) (fun a ha => h.execution a (hunder ▸ ha))
  simpa using hmoved

/-- The main thread takes a message, which is next where it is a shell message. -/
theorem Held.take {pc : MainPc} {m : Message} {route : Route}
    {deferredShell shell deferredControl control : List Message} (h : Held s)
    (hnothing : s.main.inHand = none) (hin : pc.inHand = some m)
    (hunder : pc.underWay = s.main.underWay)
    (hroute : pc = .handling m → route = .shellListener ∨ route = .controlListener)
    (hline : ∀ a ∈ s.deferredShell ++ s.shell, a ∈ deferredShell ++ shell ∨ a = m)
    (hbehind : m ∈ s.arrivedShell → ∀ b ∈ s.busyQueue, b.id < m.id) :
    Held { s.hand m route with deferredShell, shell, deferredControl, control, main := pc } where
  settled a ha hread := by
    rcases h.settled a ha hread with hmem | hthread | hmain | hmain | hfinished
    · rcases List.mem_append.mp hmem with hbusy | hmem
      · exact .inl (List.mem_append_left _ hbusy)
      · rcases hline a hmem with hmem | rfl
        · exact .inl (List.mem_append_right _ hmem)
        · exact .inr (.inr (.inr (.inl hin)))
    · exact .inr (.inl hthread)
    · exact .inr (.inr (.inl (hunder.trans hmain)))
    · rw [hnothing] at hmain
      cases hmain
    · exact .inr (.inr (.inr (.inr (List.mem_append_left _ hfinished))))
  behind m' hm' hmain := by
    obtain rfl : m = m' := Option.some.inj (hin.symm.trans hmain)
    exact hbehind hm'
  execution m' hm' := h.execution m' (hunder ▸ hm')
  listened m' hm' := by
    rcases hm' with hm' | rfl
    · exact (h.listened m' (.inl (hunder ▸ hm'))).imp (List.mem_append_left _)
        (List.mem_append_left _)
    · obtain rfl : m' = m := Option.some.inj hin
      rcases hroute rfl with rfl | rfl
      · exact .inl List.mem_concat_self
      · exact .inr List.mem_concat_self
  handed m' hm' := by
    apply exists_handed
    rcases hm' with hm' | hm' | hm' | hm'
    · exact .inl (h.handed m' (.inl hm'))
    · exact .inr (Option.some.inj (hm'.symm.trans hin))
    · exact .inl (h.handed m' (.inr (.inr (.inl hm'))))
    · have hfinished : .finished m' ∈ s.log := by
        simpa [State.hand] using hm'
      exact .inl (h.handed m' (.inr (.inr (.inr hfinished))))

/-- It takes the first of the deferred shell messages. -/
theorem Held.takeDeferred {pc : MainPc} {m : Message} {rest : List Message} {route : Route}
    (h : Held s) (hl : Lines s.toQueues) (hn : Numbered s.toQueues)
    (hshell : s.deferredShell = m :: rest) (hnothing : s.main.inHand = none)
    (hin : pc.inHand = some m) (hunder : pc.underWay = s.main.underWay)
    (hroute : pc = .handling m → route = .shellListener ∨ route = .controlListener) :
    Held { s.hand m route with deferredShell := rest, main := pc } := by
  refine h.take hnothing hin hunder hroute (fun a ha => ?_) fun _ b hb =>
    busy_first hl hn hb (.inl (by simp [hshell]))
  rw [hshell, List.cons_append] at ha
  exact (List.mem_cons.mp ha).symm

/-- It takes the first shell message in the socket. -/
theorem Held.takeSocket {pc : MainPc} {m : Message} {rest : List Message} {route : Route}
    (h : Held s) (hl : Lines s.toQueues) (hn : Numbered s.toQueues)
    (hshell : s.shell = m :: rest) (hnothing : s.main.inHand = none)
    (hin : pc.inHand = some m) (hunder : pc.underWay = s.main.underWay)
    (hroute : pc = .handling m → route = .shellListener ∨ route = .controlListener) :
    Held { s.hand m route with shell := rest, main := pc } := by
  refine h.take hnothing hin hunder hroute (fun a ha => ?_) fun _ b hb =>
    busy_first hl hn hb (.inr (by simp [hshell]))
  rw [hshell] at ha
  rcases List.mem_append.mp ha with ha | ha
  · exact .inl (List.mem_append_left _ ha)
  · exact (List.mem_cons.mp ha).symm.imp_left (List.mem_append_right _)

/-- A message that is not executed is done with. -/
theorem Held.finishHandling {m : Message} (watching requestStop : Bool) (h : Held s)
    (hmain : s.main = .handling m) :
    Held { s.finish m with watching, requestStop, main := .pollOnce } := by
  have hin : s.main.inHand = some m := by rw [hmain]; rfl
  have hunder : s.main.underWay = none := by rw [hmain]; rfl
  refine h.advance [m] watching requestStop .pollOnce rfl (fun a ha _ => .inr ?_)
    (fun a ha => .inr ?_) (fun a ha => (by cases ha)) fun a ha => (by cases ha)
  · rw [hunder, hin] at ha
    simpa [eq_comm] using ha
  · rw [List.mem_singleton.mp ha, hin]

/-- What is aborted is done with, and the execution is still under way. -/
theorem Held.finishAborted {m d : Message} {pc : MainPc} (h : Held s) (hpc : pc.inHand = none)
    (hunder : pc.underWay = some m) (hunder' : s.main.underWay = some m)
    (hin : s.main.inHand = some d) : Held { s.finish d with main := pc } := by
  refine h.advance [d] s.watching s.requestStop pc hpc (fun a ha _ => ?_) (fun a ha => .inr ?_)
    (fun a ha => .inl (hunder'.trans (hunder.symm.trans ha)))
    fun a ha => h.execution a (hunder'.trans (hunder.symm.trans ha))
  · rw [hunder', hin] at ha
    rw [hunder]
    exact ha.imp_right fun hd => by simpa using hd.symm
  · rw [List.mem_singleton.mp ha, hin]

/-- The execution is over, and its reply is out. -/
theorem Held.replied {m : Message} (h : Held s) (hmain : s.main = .replying m) :
    Held { s.finish m with main := .pollOnce } := by
  have hunder : s.main.underWay = some m := by rw [hmain]; rfl
  have hnothing : s.main.inHand = none := by rw [hmain]; rfl
  refine h.advance [m] s.watching s.requestStop .pollOnce rfl (fun a ha _ => .inr ?_)
    (fun a ha => .inl ?_) (fun a ha => (by cases ha)) fun a ha => (by cases ha)
  · rw [hunder, hnothing] at ha
    simpa [eq_comm] using ha
  · rw [List.mem_singleton.mp ha, hunder]

/-- A message whose type cannot be read ends the loop. -/
theorem Held.unreadable {m : Message} (h : Held s) (hmain : s.main = .handling m)
    (htype : m.msgType = none) : Held { s with main := .ended } := by
  have hin : s.main.inHand = some m := by rw [hmain]; rfl
  have hunder : s.main.underWay = none := by rw [hmain]; rfl
  have hended := h.advance [] s.watching s.requestStop .ended rfl (fun a ha hread => ?_) (by simp)
    (fun a ha => (by cases ha)) fun a ha => (by cases ha)
  · simpa using hended
  · rw [hunder, hin] at ha
    obtain rfl : m = a := by simpa using ha
    exact absurd htype hread

theorem Held.execute {m : Message} (h : Held s) (hmain : s.main = .handling m)
    (htype : m.msgType = some .executeRequest) :
    Held { s with watching := true, main := .executing m } := by
  have hin : s.main.inHand = some m := by rw [hmain]; rfl
  have hunder : s.main.underWay = none := by rw [hmain]; rfl
  have hexecutes := h.advance [] true s.requestStop (.executing m) rfl (fun a ha _ => .inl ?_)
    (by simp) (fun a ha => .inr ?_) fun a ha => ?_
  · simpa using hexecutes
  · rw [hunder, hin] at ha
    simpa [MainPc.underWay] using ha
  · obtain rfl := Option.some.inj ha
    exact hmain
  · obtain rfl := Option.some.inj ha
    exact htype

/-- Both the aborted message and the execution are over. -/
theorem Held.giveUp {m d : Message} (h : Held s) (hunder : s.main.underWay = some m)
    (hin : s.main.inHand = some d) : Held { (s.finish d).finish m with main := .pollOnce } := by
  have hboth := h.advance [d, m] s.watching s.requestStop .pollOnce rfl (fun a ha _ => .inr ?_)
    (fun a ha => ?_) (fun a ha => (by cases ha)) fun a ha => (by cases ha)
  · simpa [State.finish] using hboth
  · rw [hunder, hin] at ha
    simp only [Option.some.injEq] at ha
    rcases ha with rfl | rfl <;> simp
  · rw [hunder, hin]
    simp only [List.mem_cons, List.not_mem_nil, or_false] at ha
    rcases ha with rfl | rfl <;> simp

theorem main_held (h : Held s) (hl : Lines s.toQueues) (hn : Numbered s.toQueues) (a b : Bool) :
    Held (main s a b) := by
  have hstep := mainStep s a b
  generalize main s a b = s' at hstep ⊢
  cases hstep with
  | stay => exact h
  | stop hmain | poll hmain | polled hmain | noneDeferred m again hmain | noneInSocket m hmain
  | abort m error hmain | reply m error hmain | executed m hmain =>
    exact h.moveMain _ _ rfl (by rw [hmain]; rfl) (by rw [hmain]; rfl)
  | deferredControl m rest hmain hcontrol =>
    have hnot := control_not_shell hl hn (.inl (by simp [hcontrol] : m ∈ s.deferredControl))
    exact h.take (by rw [hmain]; rfl) rfl (by rw [hmain]; rfl) (fun _ => .inr rfl)
      (fun a ha => .inl ha) fun hshell => absurd hshell hnot
  | control m rest hmain hcontrol =>
    have hnot := control_not_shell hl hn (.inr (by simp [hcontrol] : m ∈ s.control))
    exact h.take (by rw [hmain]; rfl) rfl (by rw [hmain]; rfl) (fun _ => .inr rfl)
      (fun a ha => .inl ha) fun hshell => absurd hshell hnot
  | deferredShell m rest hmain _ _ _ hshell =>
    exact h.takeDeferred hl hn hshell (by rw [hmain]; rfl) rfl (by rw [hmain]; rfl) fun _ => .inl rfl
  | shell m rest hmain _ _ hshell =>
    exact h.takeSocket hl hn hshell (by rw [hmain]; rfl) rfl (by rw [hmain]; rfl) fun _ => .inl rfl
  | abortDeferred m again d rest hmain hshell =>
    exact h.takeDeferred hl hn hshell (by rw [hmain]; rfl) rfl (by rw [hmain]; rfl)
      fun hpc => (by cases hpc)
  | abortSocket m d rest hmain hshell =>
    exact h.takeSocket hl hn hshell (by rw [hmain]; rfl) rfl (by rw [hmain]; rfl)
      fun hpc => (by cases hpc)
  | unreadable m hmain htype => exact h.unreadable hmain htype
  | execute m hmain htype => exact h.execute hmain htype
  | handled m requestStop hmain => exact h.finishHandling s.watching requestStop hmain
  | abortedDeferred m again again' d hmain | abortedSocket m d hmain =>
    exact h.finishAborted rfl rfl (by rw [hmain]; rfl) (by rw [hmain]; rfl)
  | giveUp m again d hmain => exact h.giveUp (by rw [hmain]; rfl) (by rw [hmain]; rfl)
  | replied m hmain => exact h.replied hmain

/-! ## What a step hands over -/

/-- A message that is next on the shell channel, past the busy queue. -/
def NextShell (s : State) (b : Message) : Prop :=
  s.deferredShell.head? = some b ∨ s.deferredShell = [] ∧ s.shell.head? = some b

theorem watch_hands {accepts : MsgType → Bool} {b : Message} {route : Route}
    (h : (watch accepts s).log = s.log ++ [.handed b route]) : route = .interruptHandler := by
  have hstep := watchStep accepts s
  generalize watch accepts s = s' at hstep h
  cases hstep with
  | interrupt m =>
    obtain ⟨-, rfl⟩ : m = b ∧ .interruptHandler = route := by simpa [State.hand] using h
    rfl
  | _ => simp [State.finish] at h

theorem answerBusy_hands {b : Message} {route : Route}
    (h : (answerBusy s).log = s.log ++ [.handed b route]) :
    route = .busyHandler ∧ s.busyThread = none ∧ ∃ rest, s.busyQueue = b :: rest := by
  have hstep := busyStep s
  generalize answerBusy s = s' at hstep h
  cases hstep with
  | take m rest hthread hbusy =>
    obtain ⟨rfl, rfl⟩ : m = b ∧ .busyHandler = route := by simpa [State.hand] using h
    exact ⟨rfl, hthread, rest, hbusy⟩
  | _ => simp [State.finish] at h

/-- Where the main thread takes a shell message. -/
theorem main_hands {x y : Bool} {b : Message} {route : Route} (ht : Threads s)
    (h : (main s x y).log = s.log ++ [.handed b route]) (hroute : route.channel = .shell) :
    takesShell s x y = true ∧ NextShell s b ∧ s.main.inHand = none ∧
      (route = .shellListener ∧ s.main.underWay = none ∨ route = .abortCallback) := by
  have hstep := mainStep s x y
  generalize main s x y = s' at hstep h
  cases hstep with
  | deferredControl m | control m =>
    obtain ⟨rfl, rfl⟩ : m = b ∧ .controlListener = route := by simpa [State.hand] using h
    cases hroute
  | deferredShell m rest hmain hrequestStop hwatcher hcontrol hshell =>
    obtain ⟨rfl, rfl⟩ : m = b ∧ .shellListener = route := by simpa [State.hand] using h
    exact ⟨by simp [takesShell, hmain, hrequestStop, hwatcher, hcontrol, hshell],
      .inl (by simp [hshell]), by rw [hmain]; rfl, .inl ⟨rfl, by rw [hmain]; rfl⟩⟩
  | shell m rest hmain hflag hcontrol hshell =>
    obtain ⟨rfl, rfl⟩ : m = b ∧ .shellListener = route := by simpa [State.hand] using h
    have hsocket : x = false ∨ s.control = [] :=
      (Bool.eq_false_or_eq_true x).symm.imp_right hcontrol
    exact ⟨by simpa [takesShell, hmain, hflag, hshell] using hsocket,
      .inr ⟨(ht.polling hmain).2, by simp [hshell]⟩, by rw [hmain]; rfl,
      .inl ⟨rfl, by rw [hmain]; rfl⟩⟩
  | abortDeferred m again d rest hmain hshell =>
    obtain ⟨rfl, rfl⟩ : d = b ∧ .abortCallback = route := by simpa [State.hand] using h
    exact ⟨by simp [takesShell, hmain, hshell], .inl (by simp [hshell]), by rw [hmain]; rfl,
      .inr rfl⟩
  | abortSocket m d rest hmain hshell =>
    obtain ⟨rfl, rfl⟩ : d = b ∧ .abortCallback = route := by simpa [State.hand] using h
    exact ⟨by simp [takesShell, hmain, hshell],
      .inr ⟨ht.aborting (.inl ⟨m, hmain⟩), by simp [hshell]⟩, by rw [hmain]; rfl, .inr rfl⟩
  | _ => simp [State.finish] at h

/-! ## Every run -/

/-- Both at once: only the listener waits for the execution under way. -/
def Ordered (s : State) : Prop :=
  ∀ before b route after, s.log = before ++ .handed b route :: after → route.channel = .shell →
    ∀ a ∈ s.arrivedShell, a.id < b.id →
      Done before a ∨ Running before a ∧ (route = .busyHandler ∨ route = .abortCallback)

theorem Ordered.inOrder (h : Ordered s) : InOrder s where
  handled before b route after hlog hroute a ha hlt := by
    have hshell : route.channel = .shell := by rcases hroute with rfl | rfl <;> rfl
    refine (h before b route after hlog hshell a ha hlt).imp_right fun ⟨hrunning, hwho⟩ => ?_
    refine ⟨hrunning, hwho.resolve_right fun habort => ?_⟩
    rw [habort] at hroute
    simp at hroute
  aborted before b after hlog a ha hlt :=
    (h before b .abortCallback after hlog rfl a ha hlt).imp_right fun ⟨hrunning, _⟩ => hrunning

/-- A shell message before one that is next past the busy queue is with the busy thread, if it
still waits. -/
theorem line_before_next {q : Queues} (hl : Lines q) (hn : Numbered q) {a b : Message}
    (hb : q.deferredShell.head? = some b ∨ q.deferredShell = [] ∧ q.shell.head? = some b)
    (ha : a ∈ q.shellLine) (hlt : a.id < b.id) : a ∈ q.busyQueue := by
  have hsorted := (List.pairwise_append.mp (hl.shell_sorted hn)).2.1
  refine (List.mem_append.mp ha).resolve_right fun hrest => ?_
  obtain ⟨rest, hline⟩ : ∃ rest, q.deferredShell ++ q.shell = b :: rest := by
    rcases hb with hb | ⟨hnone, hb⟩ <;> obtain ⟨rest, hrest⟩ := List.head?_eq_some_iff.mp hb
    · exact ⟨rest ++ q.shell, by simp [hrest]⟩
    · exact ⟨rest, by simp [hnone, hrest]⟩
  rw [hline] at hsorted hrest
  rcases List.mem_cons.mp hrest with rfl | hrest
  · exact Nat.lt_irrefl _ hlt
  · have := List.rel_of_pairwise_cons hsorted hrest
    omega

theorem Held.done_of_finished (h : Held s) {a : Message} (ha : .finished a ∈ s.log) :
    Done s.log a :=
  ⟨h.handed a (.inr (.inr (.inr ha))), ha⟩

/-- The execution under way, as the log has it. -/
theorem Held.running (h : Held s) (hacc : Accounted s.toQueues) (hn : Numbered s.toQueues)
    {a : Message} (hunder : s.main.underWay = some a) (ha : a ∈ s.arrivedShell)
    (hnot : .finished a ∉ s.log) : Running s.log a := by
  refine ⟨h.execution a hunder, (h.listened a (.inl hunder)).resolve_right fun hcontrol => ?_, hnot⟩
  exact hn.apart a ha a (handed_arrived hacc hcontrol) rfl

/-- **One step.** What came before a shell message that is handed over is done with, but for
the execution under way. -/
theorem handed_in_order {accepts : MsgType → Bool} (hs : (system accepts).Reachable s)
    (h : Held s) (hread : ∀ a ∈ s.arrivedShell, a.msgType ≠ none) {e : Event}
    (hpatient : patient s e = true) {b : Message} {route : Route}
    (hlog : (step accepts s e).log = s.log ++ [.handed b route]) (hroute : route.channel = .shell)
    {a : Message} (ha : a ∈ s.arrivedShell) (hlt : a.id < b.id) :
    Done s.log a ∨ Running s.log a ∧ (route = .busyHandler ∨ route = .abortCallback) := by
  have hq := (refines_traffic accepts).reachable s hs
  have hl := traffic_lines _ hq
  have hn := traffic_numbered _ hq
  have hacc := traffic_accounted _ hq
  by_cases hfinished : .finished a ∈ s.log
  · exact .inl (h.done_of_finished hfinished)
  have hsettled := h.settled a ha (hread a ha)
  cases e with
  | arriveShell | arriveControl => simp [step] at hlog
  | watch =>
    obtain rfl := watch_hands hlog
    cases hroute
  | busy =>
    obtain ⟨rfl, hthread, rest, hbusy⟩ := answerBusy_hands hlog
    refine .inr ⟨?_, .inl rfl⟩
    -- `b` is the first of the line, and the main thread has nothing before it but its execution
    rcases hsettled with hline | hthread' | hunder | hin | hdone
    · have hsorted := hl.shell_sorted hn
      unfold Queues.shellLine at hline hsorted
      rw [hbusy] at hline hsorted
      rcases List.mem_cons.mp hline with rfl | hline
      · exact absurd hlt (Nat.lt_irrefl _)
      · have := List.rel_of_pairwise_cons hsorted hline
        omega
    · rw [hthread] at hthread'
      cases hthread'
    · exact h.running hacc hn hunder ha hfinished
    · have := h.behind a ha hin b (by simp [hbusy])
      omega
    · exact absurd hdone hfinished
  | main x y =>
    obtain ⟨htakes, hnext, hin, hwho⟩ := main_hands (threads accepts s hs) hlog hroute
    obtain ⟨hbusy, hthread⟩ : s.busyQueue = [] ∧ s.busyThread = none := by
      simpa [patient, htakes] using hpatient
    right
    rcases hsettled with hline | hthread' | hunder | hin' | hdone
    · have := line_before_next hl hn hnext hline hlt
      rw [hbusy] at this
      cases this
    · rw [hthread] at hthread'
      cases hthread'
    · rcases hwho with ⟨-, hnone⟩ | rfl
      · rw [hnone] at hunder
        cases hunder
      · exact ⟨h.running hacc hn hunder ha hfinished, .inr rfl⟩
    · rw [hin] at hin'
      cases hin'
    · exact absurd hdone hfinished

theorem held (accepts : MsgType → Bool) : ∀ s, (system accepts).Reachable s → Held s := by
  apply Transition.System.invariant
  · rintro s rfl
    exact held_init
  · rintro s e s' hs h rfl
    have hq := (refines_traffic accepts).reachable s hs
    have hl := traffic_lines _ hq
    have hn := traffic_numbered _ hq
    cases e with
    | arriveShell request =>
      refine h.arriveShell accepts request fun b hb => hn.bound b (List.mem_append_left _ ?_)
      exact hl.shell.subset (List.mem_append_left _ hb)
    | arriveControl request => exact ⟨h.settled, h.behind, h.execution, h.listened, h.handed⟩
    | watch => exact watch_held h (threads accepts s hs) accepts
    | busy => exact answerBusy_held h
    | main x y => exact main_held h hl hn x y

/-- What has arrived after a move had arrived before it, or comes after everything. -/
theorem Move.arrived_before {q q' : Queues} (hmove : Move q q') {a : Message}
    (ha : a ∈ q'.arrivedShell) : a ∈ q.arrivedShell ∨ a.id = q.arrivals ∧ q'.log = q.log := by
  cases hmove with
  | arriveShell request =>
    rcases List.mem_append.mp ha with ha | ha
    · exact .inl ha
    · rw [List.mem_singleton.mp ha]
      exact .inr ⟨rfl, rfl⟩
  | _ => exact .inl ha

theorem ordered_step {accepts : MsgType → Bool} (hs : (system accepts).Reachable s)
    (h : Ordered s) (hread : ∀ a ∈ s.arrivedShell, a.msgType ≠ none) {e : Event}
    (hpatient : patient s e = true) : Ordered (step accepts s e) := by
  have hmove := step_move accepts (threads accepts s hs) e
  have hq := (refines_traffic accepts).reachable s hs
  intro before b route after hlog hroute a ha hlt
  rcases hmove.arrived_before ha with ha | ⟨hid, hsame⟩
  · rcases hmove.log with ⟨done, hlog'⟩ | ⟨m, route', hlog', -⟩
    · change (step accepts s e).log = _ at hlog'
      rw [hlog'] at hlog
      obtain ⟨after', hlog⟩ := handed_finish hlog
      exact h before b route after' hlog hroute a ha hlt
    · change (step accepts s e).log = _ at hlog'
      rw [hlog'] at hlog
      rcases Log.split_snoc hlog with ⟨-, rfl, hlast⟩ | ⟨after', -, hlog⟩
      · obtain ⟨rfl, rfl⟩ := Entry.handed.inj hlast
        exact handed_in_order hs (held accepts s hs) hread hpatient hlog' hroute ha hlt
      · exact h before b route after' hlog hroute a ha hlt
  · -- `a` has just arrived, but `b` has been handed over
    change (step accepts s e).log = s.log at hsame
    have hb : .handed b route ∈ s.log := by
      rw [← hsame, hlog]
      simp
    have harrived := handed_arrived (traffic_accounted _ hq) hb
    rw [hroute] at harrived
    have := (traffic_numbered _ hq).bound b (List.mem_append_left _ harrived)
    omega

/-- The threads move what has arrived; nothing else arrives. -/
theorem answerBusy_arrivedShell (s : State) : (answerBusy s).arrivedShell = s.arrivedShell := by
  have hstep := busyStep s
  generalize answerBusy s = s' at hstep ⊢
  cases hstep <;> rfl

theorem main_arrivedShell (s : State) (a b : Bool) :
    (main s a b).arrivedShell = s.arrivedShell := by
  have hstep := mainStep s a b
  generalize main s a b = s' at hstep ⊢
  cases hstep <;> rfl

/-- While only readable messages come, what has arrived can be read. -/
theorem readable_step {accepts : MsgType → Bool} {e : Event} (hpatient : patient s e = true)
    (hread : ∀ a ∈ s.arrivedShell, a.msgType ≠ none) :
    ∀ a ∈ (step accepts s e).arrivedShell, a.msgType ≠ none := by
  cases e with
  | arriveShell request =>
    intro a ha
    rcases List.mem_append.mp ha with ha | ha
    · exact hread a ha
    · rw [List.mem_singleton.mp ha]
      exact Option.isSome_iff_ne_none.mp hpatient
  | arriveControl request => exact hread
  | watch =>
    show ∀ a ∈ (watch accepts s).arrivedShell, _
    rwa [(watch_frame accepts s).2.2]
  | busy =>
    show ∀ a ∈ (answerBusy s).arrivedShell, _
    rwa [answerBusy_arrivedShell]
  | main x y =>
    show ∀ a ∈ (main s x y).arrivedShell, _
    rwa [main_arrivedShell]

/-- **Replies stay in order.** In every run in which the main thread waits for the busy-request
thread, a message is handed over when those before it are done with, but for the execution
under way. -/
theorem replies_in_order (accepts : MsgType → Bool) (es : List Event)
    (hpatient : ∀ pre e, pre ++ [e] <+: es → patient (run accepts pre) e = true) :
    InOrder (run accepts es) := by
  have hrun : ((system accepts).when fun s e => patient s e = true).Reachable (run accepts es) :=
    Transition.System.reachable_when_foldl hpatient
  let P (s : State) : Prop := Ordered s ∧ ∀ a ∈ s.arrivedShell, a.msgType ≠ none
  suffices P (run accepts es) from this.1.inOrder
  revert hrun
  apply Transition.System.invariant
  · rintro s rfl
    exact ⟨fun before b route after hlog => by simp at hlog, nofun⟩
  · rintro s e s' hs ⟨h, hread⟩ ⟨hpatient, rfl⟩
    exact ⟨ordered_step hs.of_when h hread hpatient, readable_step hpatient hread⟩

/-- A cell fails on Python; the completion request that came meanwhile is answered first, then
what is behind it is aborted. -/
theorem replies_in_order_abort : InOrder (run carpo
    [.arriveShell ⟨some .executeRequest, false, true⟩, .main false false, .main false true,
      .main false false, .arriveShell ⟨some .completeRequest, false, false⟩,
      .arriveShell ⟨some .executeRequest, false, false⟩, .watch, .watch, .watch, .busy, .busy,
      .main true false, .main true false, .main true false, .main true false, .main true false,
      .main true false, .main true false]) :=
  replies_in_order carpo _ (Transition.System.forall_of_allSteps (by decide))

/-! ## The server does not wait -/

/-- A cell runs on Python; a completion request comes, and is queued for the busy-request
thread; the cell ends, and another completion request comes. -/
def overtaken : List Event :=
  [.arriveShell ⟨some .executeRequest, false, false⟩, .main false false, .main false true,
    .main false false, .arriveShell ⟨some .completeRequest, false, false⟩, .watch, .watch, .watch,
    .main false false, .main false false, .main false false,
    .arriveShell ⟨some .completeRequest, false, false⟩, .main false false]

/-- **The busy request is overtaken**: the second is handed to its listener while the first is
still queued. -/
theorem busy_request_overtaken : ¬ InOrder (run carpo (overtaken ++ [.main false true])) := by
  intro h
  let a : Message := ⟨1, ⟨some .completeRequest, false, false⟩⟩
  let b : Message := ⟨2, ⟨some .completeRequest, false, false⟩⟩
  have hlog : (run carpo (overtaken ++ [.main false true])).log =
      (run carpo overtaken).log ++ .handed b .shellListener :: [] := by decide
  have hqueued : a ∈ (run carpo (overtaken ++ [.main false true])).arrivedShell := by decide
  have hnot : .finished a ∉ (run carpo overtaken).log := by decide
  rcases h.handled _ b _ _ hlog (.inl rfl) a hqueued (by decide) with hdone | ⟨hrunning, -⟩
  · exact hnot hdone.2
  · exact absurd hrunning.1 (by decide)

end Jovian.Server
