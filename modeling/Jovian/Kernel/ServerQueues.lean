import Jovian.Kernel.Traffic

/-!
# Jovian — no message of a kernel is lost, or handled twice

The server's threads move messages as `traffic` does (`refines_traffic`): what makes it so is
that they exclude each other where it matters (`Threads`): the watcher reads only while the
main thread runs code or waits for it to stop, and the main thread reads a socket only after
what was deferred.

* **`no_message_lost`** — in every run, a message that has arrived is in one place, or was
  handed over once; and what was deferred is handed over before what was in the socket.
* `interrupt_overtakes` — except that an interrupt, or a debug request, read while code runs
  is answered at once; and that the watcher drops a message whose type it cannot read.
-/

namespace Jovian.Server

/-! ## A step of the main thread -/

/-- What a step of the main thread is, with its flags. -/
inductive MainStep (s : State) (a b : Bool) : State → Prop where
  /-- It waits for the watcher, or is over. -/
  | stay : MainStep s a b s
  | stop (hmain : s.main = .pollOnce) : MainStep s a b { s with main := .ended }
  | deferredControl (m : Message) (rest : List Message) (hmain : s.main = .pollOnce)
      (hcontrol : s.deferredControl = m :: rest) :
      MainStep s a b
        { s.hand m .controlListener with deferredControl := rest, main := .handling m }
  | deferredShell (m : Message) (rest : List Message) (hmain : s.main = .pollOnce)
      (hrequestStop : s.requestStop = false) (hwatcher : s.watcher = .waiting)
      (hcontrol : s.deferredControl = []) (hshell : s.deferredShell = m :: rest) :
      MainStep s a b
        { s.hand m .shellListener with deferredShell := rest, main := .handling m }
  | poll (hmain : s.main = .pollOnce) (hcontrol : s.deferredControl = [])
      (hshell : s.deferredShell = []) : MainStep s a b { s with main := .polling }
  | control (m : Message) (rest : List Message) (hmain : s.main = .polling)
      (hcontrol : s.control = m :: rest) :
      MainStep s a b { s.hand m .controlListener with control := rest, main := .handling m }
  | shell (m : Message) (rest : List Message) (hmain : s.main = .polling) (hflag : b = true)
      (hcontrol : a = true → s.control = []) (hshell : s.shell = m :: rest) :
      MainStep s a b { s.hand m .shellListener with shell := rest, main := .handling m }
  | polled (hmain : s.main = .polling) : MainStep s a b { s with main := .pollOnce }
  | unreadable (m : Message) (hmain : s.main = .handling m) (htype : m.msgType = none) :
      MainStep s a b { s with main := .ended }
  | execute (m : Message) (hmain : s.main = .handling m)
      (htype : m.msgType = some .executeRequest) :
      MainStep s a b { s with watching := true, main := .executing m }
  | handled (m : Message) (requestStop : Bool) (hmain : s.main = .handling m) :
      MainStep s a b { s.finish m with requestStop, main := .pollOnce }
  | executed (m : Message) (hmain : s.main = .executing m) :
      MainStep s a b { s with watching := false, main := .ending m a }
  | abort (m : Message) (error : Bool) (hmain : s.main = .ending m error)
      (hwatcher : s.watcher = .waiting)
      (haborts : (!m.request.silent && m.request.stopOnError) = true) :
      MainStep s a b { s with main := .abortDeferred m false }
  | reply (m : Message) (error : Bool) (hmain : s.main = .ending m error)
      (hwatcher : s.watcher = .waiting) : MainStep s a b { s with main := .replying m }
  | abortDeferred (m : Message) (again : Bool) (d : Message) (rest : List Message)
      (hmain : s.main = .abortDeferred m again) (hshell : s.deferredShell = d :: rest) :
      MainStep s a b
        { s.hand d .abortCallback with deferredShell := rest, main := .abortingDeferred m again d }
  | noneDeferred (m : Message) (again : Bool) (hmain : s.main = .abortDeferred m again)
      (hshell : s.deferredShell = []) : MainStep s a b { s with main := .abortSocket m }
  | abortedDeferred (m : Message) (again again' : Bool) (d : Message)
      (hmain : s.main = .abortingDeferred m again d) :
      MainStep s a b { s.finish d with main := .abortDeferred m again' }
  /-- The second reply could not be made either. -/
  | giveUp (m : Message) (again : Bool) (d : Message)
      (hmain : s.main = .abortingDeferred m again d) :
      MainStep s a b { (s.finish d).finish m with main := .pollOnce }
  | abortSocket (m d : Message) (rest : List Message) (hmain : s.main = .abortSocket m)
      (hshell : s.shell = d :: rest) :
      MainStep s a b { s.hand d .abortCallback with shell := rest, main := .abortingSocket m d }
  | noneInSocket (m : Message) (hmain : s.main = .abortSocket m) (hshell : s.shell = []) :
      MainStep s a b { s with main := .replying m }
  | abortedSocket (m d : Message) (hmain : s.main = .abortingSocket m d) :
      MainStep s a b { s.finish d with main := .abortSocket m }
  | replied (m : Message) (hmain : s.main = .replying m) :
      MainStep s a b { s.finish m with main := .pollOnce }

theorem mainStep (s : State) (a b : Bool) : MainStep s a b (main s a b) := by
  unfold main
  cases hmain : s.main with
  | pollOnce =>
    simp only [pollDeferred]
    split
    · exact .stop hmain
    · next hrequestStop =>
      split
      · exact .stay
      · next hwatcher =>
        split
        · next m rest hcontrol => exact .deferredControl m rest hmain hcontrol
        · next hcontrol =>
          split
          · next m rest hshell =>
            exact .deferredShell m rest hmain (by simpa using hrequestStop) (by simpa using hwatcher)
              hcontrol hshell
          · next hshell => exact .poll hmain hcontrol hshell
  | polling =>
    simp only [pollSockets]
    split
    · next m rest hcontrol => exact .control m rest hmain hcontrol
    · next m rest hshell hnone =>
      -- the first pattern did not match, so the control flag was for nothing
      refine .shell m rest hmain rfl (fun ha => ?_) hshell
      cases hcontrol : s.control with
      | nil => rfl
      | cons c cs => exact (hnone c cs ha hcontrol).elim
    · exact .polled hmain
  | handling m =>
    simp only
    split
    · next htype => exact .unreadable m hmain htype
    · next htype => exact .execute m hmain htype
    · exact .handled m _ hmain
    · exact .handled m s.requestStop hmain
  | executing m => exact .executed m hmain
  | ending m error =>
    simp only
    split
    · exact .stay
    · next hwatcher =>
      have hwaiting : s.watcher = .waiting := by simpa using hwatcher
      split
      · next haborts =>
        refine .abort m error hmain hwaiting ?_
        simp only [Bool.and_eq_true] at haborts ⊢
        exact ⟨haborts.1.1, haborts.2⟩
      · exact .reply m error hmain hwaiting
  | abortDeferred m again =>
    simp only
    split
    · next hshell => exact .noneDeferred m again hmain hshell
    · next d rest hshell => exact .abortDeferred m again d rest hmain hshell
  | abortingDeferred m again d =>
    simp only
    split
    · exact .abortedDeferred m again again d hmain
    · split
      · exact .abortedDeferred m again true d hmain
      · exact .giveUp m again d hmain
  | abortSocket m =>
    simp only
    split
    · next hshell => exact .noneInSocket m hmain hshell
    · next d rest hshell => exact .abortSocket m d rest hmain hshell
  | abortingSocket m d => exact .abortedSocket m d hmain
  | replying m => exact .replied m hmain
  | ended => exact .stay

/-! ## A step of the watcher, and of the busy-request thread -/

/-- What a step of the watcher is. -/
inductive WatchStep (accepts : MsgType → Bool) (s : State) : State → Prop where
  | stay : WatchStep accepts s s
  | start (hwatching : s.watching = true) : WatchStep accepts s { s with watcher := .control }
  | noControl (hwatcher : s.watcher = .control) : WatchStep accepts s { s with watcher := .shell }
  | dropControl (m : Message) (rest : List Message) (hwatcher : s.watcher = .control)
      (hcontrol : s.control = m :: rest) (htype : m.msgType = none) :
      WatchStep accepts s
        { s with
          control := rest, droppedControl := s.droppedControl ++ [m], watcher := .shell }
  | interrupt (m : Message) (rest : List Message) (hwatcher : s.watcher = .control)
      (hcontrol : s.control = m :: rest)
      (htype : m.msgType = some .interruptRequest ∨ m.msgType = some .debugRequest) :
      WatchStep accepts s
        { s.hand m .interruptHandler with control := rest, watcher := .interrupting m }
  | deferControl (m : Message) (rest : List Message) (hwatcher : s.watcher = .control)
      (hcontrol : s.control = m :: rest) :
      WatchStep accepts s
        { s with
          control := rest, deferredControl := s.deferredControl ++ [m], watcher := .shell }
  | interrupted (m : Message) (hwatcher : s.watcher = .interrupting m) :
      WatchStep accepts s { s.finish m with watcher := .shell }
  | noShell (hwatcher : s.watcher = .shell) : WatchStep accepts s { s with watcher := .waiting }
  | dropShell (m : Message) (rest : List Message) (hwatcher : s.watcher = .shell)
      (hshell : s.shell = m :: rest) (htype : m.msgType = none) :
      WatchStep accepts s
        { s with shell := rest, droppedShell := s.droppedShell ++ [m], watcher := .waiting }
  | toBusy (m : Message) (rest : List Message) (t : MsgType) (hwatcher : s.watcher = .shell)
      (hshell : s.shell = m :: rest) (htype : m.msgType = some t)
      (hdeferred : s.deferredShell = []) (haccepts : accepts t = true) :
      WatchStep accepts s
        { s with shell := rest, busyQueue := s.busyQueue ++ [m], watcher := .waiting }
  | deferShell (m : Message) (rest : List Message) (hwatcher : s.watcher = .shell)
      (hshell : s.shell = m :: rest) :
      WatchStep accepts s
        { s with shell := rest, deferredShell := s.deferredShell ++ [m], watcher := .waiting }

theorem watchStep (accepts : MsgType → Bool) (s : State) :
    WatchStep accepts s (watch accepts s) := by
  unfold watch
  split
  · split
    · next hready => exact .start hready.1
    · exact .stay
  · next hwatcher =>
    unfold pollControlOnce
    split
    · exact .noControl hwatcher
    · next m rest hcontrol =>
      simp only
      split
      · next htype => exact .dropControl m rest hwatcher hcontrol htype
      · next t htype =>
        split
        · next hnow => exact .interrupt m rest hwatcher hcontrol (by simpa [htype] using hnow)
        · exact .deferControl m rest hwatcher hcontrol
  · next m hwatcher => exact .interrupted m hwatcher
  · next hwatcher =>
    unfold pollShellOnce
    split
    · exact .noShell hwatcher
    · next m rest hshell =>
      simp only
      split
      · next htype => exact .dropShell m rest hwatcher hshell htype
      · next t htype =>
        split
        · next hbusy => exact .toBusy m rest t hwatcher hshell htype hbusy.1 hbusy.2
        · exact .deferShell m rest hwatcher hshell

/-- What a step of the busy-request thread is. -/
inductive BusyStep (s : State) : State → Prop where
  | stay : BusyStep s s
  | take (m : Message) (rest : List Message) (hthread : s.busyThread = none)
      (hbusy : s.busyQueue = m :: rest) :
      BusyStep s { s.hand m .busyHandler with busyQueue := rest, busyThread := some m }
  | answered (m : Message) (hthread : s.busyThread = some m) :
      BusyStep s { s.finish m with busyThread := none }

theorem busyStep (s : State) : BusyStep s (answerBusy s) := by
  unfold answerBusy
  split
  · next hthread =>
    split
    · exact .stay
    · next m rest hbusy => exact .take m rest hthread hbusy
  · next m hthread =>
    split
    · exact .answered m hthread
    · exact .stay

/-! ## Who reads when -/

structure Threads (s : State) : Prop where
  watching : s.watching = true → ∃ m, s.main = .executing m
  watcher : s.watcher ≠ .waiting → (∃ m, s.main = .executing m) ∨ ∃ m error, s.main = .ending m error
  polling : s.main = .polling → s.deferredControl = [] ∧ s.deferredShell = []
  aborting : ((∃ m, s.main = .abortSocket m) ∨ ∃ m d, s.main = .abortingSocket m d) →
    s.deferredShell = []

theorem threads_init : Threads {} := by
  constructor <;> simp

variable (accepts : MsgType → Bool)

theorem watch_frame (s : State) :
    (watch accepts s).main = s.main ∧ (watch accepts s).watching = s.watching ∧
      (watch accepts s).arrivedShell = s.arrivedShell := by
  have hstep := watchStep accepts s
  generalize watch accepts s = s' at hstep ⊢
  cases hstep <;> exact ⟨rfl, rfl, rfl⟩

/-- While the watcher reads, the main thread is off the queues. -/
theorem Threads.read {s s' : State} (h : Threads s) (hwatcher : s.watcher ≠ .waiting)
    (hmain : s'.main = s.main) (hwatching : s'.watching = s.watching) : Threads s' := by
  have hbusy := h.watcher hwatcher
  refine ⟨?_, fun _ => ?_, ?_, ?_⟩
  · rw [hmain, hwatching]
    exact h.watching
  · rwa [hmain]
  · rw [hmain]
    intro hpolling
    rcases hbusy with ⟨m, hm⟩ | ⟨m, error, hm⟩ <;> simp [hm] at hpolling
  · rw [hmain]
    rintro (⟨m', hm'⟩ | ⟨m', d, hm'⟩) <;> rcases hbusy with ⟨m, hm⟩ | ⟨m, error, hm⟩ <;>
      simp [hm] at hm'

/-- The watcher's steps change only what it may while the main thread is off the queues. -/
theorem watch_threads {s : State} (h : Threads s) : Threads (watch accepts s) := by
  have hstep := watchStep accepts s
  generalize watch accepts s = s' at hstep ⊢
  cases hstep with
  | stay => exact h
  | start hwatching =>
    -- it begins an iteration only while the main thread runs code
    obtain ⟨m, hm⟩ := h.watching hwatching
    constructor <;> simp [hm]
  | noControl hwatcher | dropControl m rest hwatcher | interrupt m rest hwatcher
  | deferControl m rest hwatcher | interrupted m hwatcher | noShell hwatcher
  | dropShell m rest hwatcher | toBusy m rest t hwatcher | deferShell m rest hwatcher =>
    exact h.read (by simp [hwatcher]) rfl rfl

theorem answerBusy_threads {s : State} (h : Threads s) : Threads (answerBusy s) := by
  have hstep := busyStep s
  generalize answerBusy s = s' at hstep ⊢
  cases hstep with
  | stay => exact h
  | take | answered => exact ⟨h.watching, h.watcher, h.polling, h.aborting⟩

/-- The main thread is not past an execution while the watcher may read. -/
theorem Threads.waiting {s : State} (h : Threads s) (hexecuting : ∀ m, s.main ≠ .executing m)
    (hending : ∀ m error, s.main ≠ .ending m error) : s.watching = false ∧ s.watcher = .waiting := by
  constructor
  · by_contra hwatching
    obtain ⟨m, hm⟩ := h.watching (by simpa using hwatching)
    exact hexecuting m hm
  · by_contra hwatcher
    rcases h.watcher hwatcher with ⟨m, hm⟩ | ⟨m, error, hm⟩
    · exact hexecuting m hm
    · exact hending m error hm

theorem main_threads {s : State} (h : Threads s) (a b : Bool) : Threads (main s a b) := by
  have hstep := mainStep s a b
  generalize main s a b = s' at hstep ⊢
  cases hstep with
  | stay => exact h
  | execute m hmain =>
    obtain ⟨-, hwatcher⟩ := h.waiting (by simp [hmain]) (by simp [hmain])
    constructor <;> simp [hwatcher]
  | executed m hmain => constructor <;> simp
  | abort m error hmain hwatcher | reply m error hmain hwatcher =>
    have hwatching : s.watching = false := by
      by_contra hwatching
      obtain ⟨m', hm'⟩ := h.watching (by simpa using hwatching)
      simp [hmain] at hm'
    constructor <;> simp [hwatching, hwatcher]
  | poll hmain hcontrol hshell =>
    obtain ⟨hwatching, hwatcher⟩ := h.waiting (by simp [hmain]) (by simp [hmain])
    constructor <;> simp [hwatching, hwatcher, hcontrol, hshell]
  | noneDeferred m again hmain hshell =>
    obtain ⟨hwatching, hwatcher⟩ := h.waiting (by simp [hmain]) (by simp [hmain])
    constructor <;> simp [hwatching, hwatcher, hshell]
  | abortSocket m d rest hmain =>
    have hshell := h.aborting (.inl ⟨m, hmain⟩)
    obtain ⟨hwatching, hwatcher⟩ := h.waiting (by simp [hmain]) (by simp [hmain])
    constructor <;> simp [State.hand, hwatching, hwatcher, hshell]
  | abortedSocket m d hmain =>
    have hshell := h.aborting (.inr ⟨m, d, hmain⟩)
    obtain ⟨hwatching, hwatcher⟩ := h.waiting (by simp [hmain]) (by simp [hmain])
    constructor <;> simp [State.finish, hwatching, hwatcher, hshell]
  | stop hmain | polled hmain | unreadable m hmain | noneInSocket m hmain =>
    obtain ⟨hwatching, hwatcher⟩ := h.waiting (by simp [hmain]) (by simp [hmain])
    constructor <;> simp [hwatching, hwatcher]
  | deferredControl m rest hmain | deferredShell m rest hmain | control m rest hmain
  | shell m rest hmain | abortDeferred m again d rest hmain =>
    obtain ⟨hwatching, hwatcher⟩ := h.waiting (by simp [hmain]) (by simp [hmain])
    constructor <;> simp [State.hand, hwatching, hwatcher]
  | handled m stop hmain | abortedDeferred m again again' d hmain | giveUp m again d hmain
  | replied m hmain =>
    obtain ⟨hwatching, hwatcher⟩ := h.waiting (by simp [hmain]) (by simp [hmain])
    constructor <;> simp [State.finish, hwatching, hwatcher]

theorem threads : ∀ s, (system accepts).Reachable s → Threads s := by
  apply Transition.System.invariant
  · rintro s rfl
    exact threads_init
  · rintro s e s' - h rfl
    cases e with
    | arriveShell request | arriveControl request =>
      exact ⟨h.watching, h.watcher, h.polling, h.aborting⟩
    | watch => exact watch_threads accepts h
    | busy => exact answerBusy_threads h
    | main a b => exact main_threads h a b

/-! ## The server refines the traffic -/

theorem watch_move (s : State) : Move s.toQueues (watch accepts s).toQueues := by
  have hstep := watchStep accepts s
  generalize watch accepts s = s' at hstep ⊢
  cases hstep with
  | stay | start | noControl | noShell => exact .stay _
  | dropControl m rest _ hcontrol htype => exact .dropControl m rest hcontrol htype
  | interrupt m rest _ hcontrol htype => exact .interrupt m rest hcontrol htype
  | deferControl m rest _ hcontrol => exact .deferControl m rest hcontrol
  | interrupted m => exact .finish [m]
  | dropShell m rest _ hshell htype => exact .dropShell m rest hshell htype
  | toBusy m rest _ _ hshell _ hdeferred => exact .toBusy m rest hshell hdeferred
  | deferShell m rest _ hshell => exact .deferShell m rest hshell

theorem answerBusy_move (s : State) : Move s.toQueues (answerBusy s).toQueues := by
  have hstep := busyStep s
  generalize answerBusy s = s' at hstep ⊢
  cases hstep with
  | stay => exact .stay _
  | take m rest _ hbusy => exact .takeBusy m rest hbusy
  | answered m => exact .finish [m]

theorem main_move {s : State} (h : Threads s) (a b : Bool) :
    Move s.toQueues (main s a b).toQueues := by
  have hstep := mainStep s a b
  generalize main s a b = s' at hstep ⊢
  cases hstep with
  | stay | stop | poll | polled | unreadable | execute | executed | abort | reply | noneDeferred
  | noneInSocket => exact .stay _
  | deferredControl m rest _ hcontrol => exact .takeDeferredControl m rest hcontrol
  | deferredShell m rest _ _ _ _ hshell => exact .takeDeferredShell m rest _ (.inl rfl) hshell
  -- nothing was deferred when the poll began, and the watcher is off since
  | control m rest hmain hcontrol => exact .takeControl m rest hcontrol (h.polling hmain).1
  | shell m rest hmain _ _ hshell =>
    exact .takeShell m rest _ (.inl rfl) hshell (h.polling hmain).2
  | abortDeferred m again d rest _ hshell =>
    exact .takeDeferredShell d rest _ (.inr rfl) hshell
  | abortSocket m d rest hmain hshell =>
    exact .takeShell d rest _ (.inr rfl) hshell (h.aborting (.inl ⟨m, hmain⟩))
  | handled m | replied m => exact .finish [m]
  | abortedDeferred m again again' d | abortedSocket m d => exact .finish [d]
  | giveUp m again d => simpa [State.finish] using Move.finish (q := s.toQueues) [d, m]

theorem step_move {s : State} (h : Threads s) (e : Event) :
    Move s.toQueues (step accepts s e).toQueues := by
  cases e with
  | arriveShell request => exact .arriveShell request
  | arriveControl request => exact .arriveControl request
  | watch => exact watch_move accepts s
  | busy => exact answerBusy_move s
  | main a b => exact main_move h a b

/-- **The server refines the traffic.** -/
theorem refines_traffic :
    Transition.System.Simulation (system accepts) traffic State.toQueues fun _ _ => some () where
  init := by
    rintro s rfl
    rfl
  silent _ _ _ _ _ h := nomatch h
  visible := by
    rintro s e s' - hs rfl -
    exact step_move accepts (threads accepts s hs) e

/-! ## What is promised -/

/-- How often `m` was handed over. -/
def State.handedOver (s : State) (m : Message) : Nat :=
  s.handings .shell m + s.handings .control m

/-- A message whose type can be read is in one place, or was handed over, once. -/
structure Conserved (s : State) : Prop where
  shell : ∀ m ∈ s.arrivedShell, m.msgType ≠ none →
    s.shell.count m + s.busyQueue.count m + s.deferredShell.count m + s.handedOver m = 1
  control : ∀ m ∈ s.arrivedControl, m.msgType ≠ none →
    s.control.count m + s.deferredControl.count m + s.handedOver m = 1
  /-- It stays on its channel. -/
  apart : (∀ m ∈ s.arrivedShell, m ∉ s.control ∧ m ∉ s.deferredControl) ∧
    ∀ m ∈ s.arrivedControl, m ∉ s.shell ∧ m ∉ s.busyQueue ∧ m ∉ s.deferredShell

theorem handings_other {q : Queues} (ha : Accounted q) (hn : Numbered q)
    {channel channel' : Channel} {m : Message} (hm : m ∈ q.arrived channel)
    (hne : channel' ≠ channel) : q.handings channel' m = 0 := by
  have hnone := hn.arrived_other hm hne
  cases channel' with
  | shell =>
    change q.arrivedShell.count m = 0 at hnone
    rw [ha.shell m] at hnone
    omega
  | control =>
    change q.arrivedControl.count m = 0 at hnone
    rw [ha.control m] at hnone
    omega

theorem conserved {s : State} (hs : (system accepts).Reachable s) : Conserved s := by
  have hq := (refines_traffic accepts).reachable s hs
  have ha := traffic_accounted _ hq
  have hn := traffic_numbered _ hq
  have hdropped := traffic_dropped _ hq
  have hcount : ∀ channel, ∀ m ∈ s.arrived channel, (s.arrived channel).count m = 1 :=
    fun channel m hm => List.nodup_iff_count_eq_one.mp (hn.arrived_nodup channel) m hm
  have hl := traffic_lines _ hq
  refine ⟨fun m hm hread => ?_, fun m hm hread => ?_, fun m hm => ?_, fun m hm => ?_⟩
  · -- a message arrives once, so what counts it counts one in all
    have hone : s.arrivedShell.count m = 1 := hcount .shell m hm
    have hkept : s.droppedShell.count m = 0 :=
      List.count_eq_zero.mpr fun h => hread (hdropped m (List.mem_append_left _ h))
    have hother : s.handings .control m = 0 := @handings_other s.toQueues ha hn .shell .control m hm nofun
    rw [ha.shell m] at hone
    unfold State.handedOver
    omega
  · have hone : s.arrivedControl.count m = 1 := hcount .control m hm
    have hkept : s.droppedControl.count m = 0 :=
      List.count_eq_zero.mpr fun h => hread (hdropped m (List.mem_append_right _ h))
    have hother : s.handings .shell m = 0 := @handings_other s.toQueues ha hn .control .shell m hm nofun
    rw [ha.control m] at hone
    unfold State.handedOver
    omega
  · have hnot : m ∉ s.arrivedControl := fun h => hn.apart m hm m h rfl
    exact ⟨fun h => hnot (hl.control.subset (List.mem_append_right _ h)),
      fun h => hnot (hl.control.subset (List.mem_append_left _ h))⟩
  · have hnot : m ∉ s.arrivedShell := fun h => hn.apart m h m hm rfl
    refine ⟨fun h => hnot (hl.shell.subset ?_), fun h => hnot (hl.shell.subset ?_),
      fun h => hnot (hl.shell.subset ?_)⟩ <;> simp [Queues.shellLine, h]

/-- **No message is lost, or handled twice**, in any run; and what is deferred at some time is
handed over before what is in the socket of its channel then, unless that is an interrupt or a
debug request for the interrupt handler. -/
theorem no_message_lost (es : List Event) :
    Conserved (run accepts es) ∧
      (∀ pre, pre <+: es → ∀ channel, ∀ d ∈ (run accepts pre).deferred channel,
        ∀ m ∈ (run accepts pre).socket channel, InTurn (run accepts es).log d m) ∧
      ∀ m, .handed m .interruptHandler ∈ (run accepts es).log →
        m.msgType = some .interruptRequest ∨ m.msgType = some .debugRequest := by
  have hes : (system accepts).Reachable (run accepts es) :=
    Transition.System.reachable_foldl _ _ es
  refine ⟨conserved accepts hes, ?_, traffic_interrupts _ ((refines_traffic accepts).reachable _ hes)⟩
  rintro pre ⟨post, rfl⟩ channel d hd m hm
  have hpre : (system accepts).Reachable (run accepts pre) :=
    Transition.System.reachable_foldl _ _ pre
  have hrun : (system accepts).Run (run accepts pre) post (run accepts (pre ++ post)) := by
    have happend : run accepts (pre ++ post) = post.foldl (step accepts) (run accepts pre) :=
      List.foldl_append
    rw [happend]
    exact Transition.System.run_foldl _ _ _ post
  obtain ⟨ds, hds⟩ := (refines_traffic accepts).run hpre hrun
  exact traffic_in_turn ((refines_traffic accepts).reachable _ hpre) hds hd hm

/-! ## An interrupt, and what cannot be read -/

/-- A cell runs; a shutdown request comes, and is deferred, and then an interrupt. -/
def interrupted : List Event :=
  [.arriveShell ⟨some .executeRequest, false, false⟩, .main false false, .main false true,
    .main false false, .arriveControl ⟨some .shutdownRequest, false, false⟩,
    .arriveControl ⟨some .interruptRequest, false, false⟩, .watch, .watch, .watch, .watch]

/-- A cell runs; a message comes whose type is not a string, and the watcher reads it. -/
def unreadable : List Event :=
  [.arriveShell ⟨some .executeRequest, false, false⟩, .main false false, .main false true,
    .main false false, .arriveShell ⟨none, false, false⟩, .watch, .watch, .watch]

/-- **The interrupt** is handed over while the shutdown, which was deferred, is not; and the
message that cannot be read is nowhere, and was handed to nobody. -/
theorem interrupt_overtakes :
    let s := run carpo interrupted
    let s' := run carpo (interrupted ++ [.watch])
    (∃ d ∈ s.deferredControl, ∃ m ∈ s.control,
      s'.log = s.log ++ [.handed m .interruptHandler] ∧ d ∈ s'.deferredControl) ∧
    let s := run carpo unreadable
    ∃ m ∈ s.arrivedShell,
      s.shell.count m + s.busyQueue.count m + s.deferredShell.count m + s.handedOver m = 0 := by
  decide

end Jovian.Server
