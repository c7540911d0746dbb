import Jovian.Kernel.ReplyOrder

/-!
# Jovian — what a failed execution aborts (`KernelCore::executeRequest`, `abortQueue`)

An execution is begun once: when the kernel is through with it, its failure aborts nothing
any more (`Through.step`). What an execution's failure aborts was waiting in the shell line
then (`AbortsAt`), and only one that asked for `stop_on_error` aborts anything.
-/

namespace Jovian.Server

variable {accepts : MsgType → Bool} {s : State}

/-! ## Through with a message -/

/-- What the main thread handles: a message, or the execution it is in. -/
def MainPc.current : MainPc → Option Message
  | .handling m => some m
  | pc => pc.underWay

/-- The entry hands `m` over. -/
def Entry.handsOver (m : Message) : Entry → Bool
  | .handed m' _ => m' = m
  | .finished _ => false

/-- The kernel is through with `m`: it was handed over, and the main thread is past it. -/
def Through (s : State) (m : Message) : Prop :=
  s.log.any (·.handsOver m) = true ∧ s.main.current ≠ some m

instance (s : State) (m : Message) : Decidable (Through s m) :=
  inferInstanceAs (Decidable (_ ∧ _))

theorem any_handsOver {log : List Entry} {m : Message} :
    log.any (·.handsOver m) = true ↔ ∃ route, .handed m route ∈ log := by
  rw [List.any_eq_true]
  constructor
  · rintro ⟨e, he, hm⟩
    cases e with
    | handed m' route =>
      obtain rfl : m' = m := by simpa [Entry.handsOver] using hm
      exact ⟨route, he⟩
    | finished m' => simp [Entry.handsOver] at hm
  · rintro ⟨route, he⟩
    exact ⟨_, he, by simp [Entry.handsOver]⟩

/-- **What the main thread begins** was waiting in a line. -/
theorem main_current {a b : Bool} {m : Message} (h : (main s a b).main.current = some m) :
    s.main.current = some m ∨ ∃ channel, m ∈ s.line channel := by
  have hstep := mainStep s a b
  generalize main s a b = s' at hstep h
  cases hstep with
  | stay => exact .inl h
  | deferredControl d rest hmain hcontrol =>
    obtain rfl : d = m := by simpa [MainPc.current] using h
    exact .inr ⟨.control, by simp [Queues.line, Queues.controlLine, hcontrol]⟩
  | control d rest hmain hcontrol =>
    obtain rfl : d = m := by simpa [MainPc.current] using h
    exact .inr ⟨.control, by simp [Queues.line, Queues.controlLine, hcontrol]⟩
  | deferredShell d rest hmain _ _ _ hshell =>
    obtain rfl : d = m := by simpa [MainPc.current] using h
    exact .inr ⟨.shell, by simp [Queues.line, Queues.shellLine, hshell]⟩
  | shell d rest hmain _ _ hshell =>
    obtain rfl : d = m := by simpa [MainPc.current] using h
    exact .inr ⟨.shell, by simp [Queues.line, Queues.shellLine, hshell]⟩
  | stop | poll | polled | unreadable | handled | giveUp | replied =>
    simp [MainPc.current, MainPc.underWay] at h
  | execute d hmain | executed d hmain | abort d error hmain | reply d error hmain
  | noneDeferred d again hmain | abortDeferred d again d' rest hmain
  | abortedDeferred d again again' d' hmain | abortSocket d d' rest hmain | noneInSocket d hmain
  | abortedSocket d d' hmain =>
    left
    rw [hmain]
    exact h

theorem answerBusy_main (s : State) : (answerBusy s).main = s.main := by
  have hstep := busyStep s
  generalize answerBusy s = s' at hstep ⊢
  cases hstep <;> rfl

theorem log_extends (ht : Threads s) (e : Event) : s.log <+: (step accepts s e).log := by
  rcases (step_move accepts ht e).log with ⟨done, hlog⟩ | ⟨m, route, hlog, -⟩
  · exact ⟨_, hlog.symm⟩
  · exact ⟨_, hlog.symm⟩

/-- **Through for good.** A message the kernel is through with is never begun again. -/
theorem Through.step (hs : (system accepts).Reachable s) {m : Message} (h : Through s m)
    (e : Event) : Through (Server.step accepts s e) m := by
  have ht := threads accepts s hs
  have hq := (refines_traffic accepts).reachable s hs
  obtain ⟨hhanded, hcurrent⟩ := h
  obtain ⟨route, hroute⟩ := any_handsOver.mp hhanded
  refine ⟨any_handsOver.mpr ⟨route, (log_extends ht e).subset hroute⟩, ?_⟩
  cases e with
  | arriveShell request | arriveControl request => exact hcurrent
  | watch =>
    show (watch accepts s).main.current ≠ some m
    rwa [(watch_frame accepts s).1]
  | busy =>
    show (answerBusy s).main.current ≠ some m
    rwa [answerBusy_main]
  | main a b =>
    intro hm
    rcases main_current hm with hm | ⟨channel, hline⟩
    · exact hcurrent hm
    · -- what waits in a line was not handed over
      exact not_handed_of_line (traffic_accounted _ hq) (traffic_numbered _ hq) hline route hroute

/-! ## Who aborts -/

/-- The execution whose failure the main thread aborts what is queued for. -/
def MainPc.aborting : MainPc → Option Message
  | .abortDeferred m _ | .abortingDeferred m _ _ | .abortSocket m | .abortingSocket m _ => some m
  | _ => none

theorem MainPc.current_of_aborting {pc : MainPc} {m : Message} (h : pc.aborting = some m) :
    pc.current = some m := by
  cases pc <;> simp_all [MainPc.aborting, MainPc.current, MainPc.underWay]

/-- Whether the failure of an execution aborts what is queued behind it. -/
def Request.aborts (request : Request) : Bool :=
  !request.silent && request.stopOnError

/-- Only an execution that asked for it aborts anything. -/
def AbortsOnError (s : State) : Prop :=
  ∀ m, s.main.aborting = some m → m.request.aborts = true

theorem main_aborts (h : AbortsOnError s) (a b : Bool) : AbortsOnError (main s a b) := by
  intro m hm
  have hstep := mainStep s a b
  generalize main s a b = s' at hstep hm
  cases hstep with
  | stay => exact h m hm
  | abort d error hmain hwatcher haborts =>
    obtain rfl : d = m := by simpa [MainPc.aborting] using hm
    exact haborts
  | noneDeferred d again hmain | abortDeferred d again d' rest hmain
  | abortedDeferred d again again' d' hmain | abortSocket d d' rest hmain
  | abortedSocket d d' hmain =>
    apply h m
    rw [hmain]
    exact hm
  | _ => simp [MainPc.aborting] at hm

theorem abortsOnError : ∀ s, (system accepts).Reachable s → AbortsOnError s := by
  apply Transition.System.invariant
  · rintro s rfl m hm
    cases hm
  · rintro s e s' - h rfl
    cases e with
    | arriveShell request | arriveControl request => exact h
    | watch =>
      show ∀ m, (watch accepts s).main.aborting = some m → _
      rwa [(watch_frame accepts s).1]
    | busy =>
      show ∀ m, (answerBusy s).main.aborting = some m → _
      rwa [answerBusy_main]
    | main a b => exact main_aborts h a b

/-- **An abort.** A message is handed to the abort callback while the main thread aborts for an
execution under way; it is the next of the deferred ones, or of the socket. -/
theorem main_abort {a b : Bool} {d : Message}
    (h : (main s a b).log = s.log ++ [.handed d .abortCallback]) :
    (∃ m again rest, s.main = .abortDeferred m again ∧ s.deferredShell = d :: rest) ∨
      ∃ m rest, s.main = .abortSocket m ∧ s.shell = d :: rest := by
  have hstep := mainStep s a b
  generalize main s a b = s' at hstep h
  cases hstep with
  | abortDeferred m again d' rest hmain hshell =>
    obtain rfl : d' = d := by simpa [State.hand] using h
    exact .inl ⟨m, again, rest, hmain, hshell⟩
  | abortSocket m d' rest hmain hshell =>
    obtain rfl : d' = d := by simpa [State.hand] using h
    exact .inr ⟨m, rest, hmain, hshell⟩
  | _ => simp [State.hand, State.finish] at h

/-- The messages the next step of the main thread aborts, and the execution it does it for. -/
def abortedBy (s : State) : List (Message × Message) :=
  match s.main with
  | .abortDeferred m _ =>
    match s.deferredShell with
    | [] => []
    | d :: _ => [(d, m)]
  | .abortSocket m =>
    match s.shell with
    | [] => []
    | d :: _ => [(d, m)]
  | _ => []

/-- What is aborted waits in the shell line, and the main thread is in the execution. -/
theorem mem_abortedBy {d m : Message} (h : (d, m) ∈ abortedBy s) :
    d ∈ s.shellLine ∧ s.main.aborting = some m := by
  unfold abortedBy at h
  split at h
  · next hmain =>
    split at h
    · cases h
    · next rest hshell =>
      obtain ⟨rfl, rfl⟩ := Prod.mk.inj (List.mem_singleton.mp h)
      exact ⟨by simp [Queues.shellLine, hshell], by simp [hmain, MainPc.aborting]⟩
  · next hmain =>
    split at h
    · cases h
    · next rest hshell =>
      obtain ⟨rfl, rfl⟩ := Prod.mk.inj (List.mem_singleton.mp h)
      exact ⟨by simp [Queues.shellLine, hshell], by simp [hmain, MainPc.aborting]⟩
  · cases h

/-- Nothing else is handed to the abort callback. -/
theorem step_abort {e : Event} {d : Message}
    (h : (step accepts s e).log = s.log ++ [.handed d .abortCallback]) :
    (∃ a b, e = .main a b) ∧ ∃ m, (d, m) ∈ abortedBy s := by
  cases e with
  | arriveShell request | arriveControl request => simp [step] at h
  | watch => cases watch_hands h
  | busy => cases (answerBusy_hands h).1
  | main a b =>
    refine ⟨⟨a, b, rfl⟩, ?_⟩
    rcases main_abort h with ⟨m, again, rest, hmain, hshell⟩ | ⟨m, rest, hmain, hshell⟩ <;>
      exact ⟨m, by simp [abortedBy, hmain, hshell]⟩

/-! ## What the busy-request thread is given -/

/-- The busy-request thread is only given what the interpreter answers while it is busy. -/
structure Answers (accepts : MsgType → Bool) (s : State) : Prop where
  queued : ∀ m ∈ s.busyQueue, ∃ t, m.msgType = some t ∧ accepts t = true
  handed : ∀ m, .handed m .busyHandler ∈ s.log → ∃ t, m.msgType = some t ∧ accepts t = true

theorem Answers.of_log (h : Answers accepts s) {s' : State} (hqueue : s'.busyQueue = s.busyQueue)
    (hlog : ∀ m, .handed m .busyHandler ∈ s'.log → .handed m .busyHandler ∈ s.log) :
    Answers accepts s' where
  queued := by
    rw [hqueue]
    exact h.queued
  handed m hm := h.handed m (hlog m hm)

theorem watch_answers (h : Answers accepts s) : Answers accepts (watch accepts s) := by
  have hstep := watchStep accepts s
  generalize watch accepts s = s' at hstep ⊢
  cases hstep with
  | toBusy m rest t _ _ htype _ haccepts =>
    refine ⟨fun m' hm' => ?_, h.handed⟩
    rcases List.mem_append.mp hm' with hm' | hm'
    · exact h.queued m' hm'
    · rw [List.mem_singleton.mp hm']
      exact ⟨t, htype, haccepts⟩
  | _ => exact h.of_log rfl fun _ hm => by simpa [State.hand, State.finish] using hm

theorem answerBusy_answers (h : Answers accepts s) : Answers accepts (answerBusy s) := by
  have hstep := busyStep s
  generalize answerBusy s = s' at hstep ⊢
  cases hstep with
  | stay => exact h
  | take m rest _ hbusy =>
    have hqueued := h.queued
    rw [hbusy] at hqueued
    refine ⟨fun m' hm' => hqueued m' (List.mem_cons_of_mem _ hm'), fun m' hm' => ?_⟩
    rcases List.mem_append.mp hm' with hm' | hm'
    · exact h.handed m' hm'
    · obtain rfl : m' = m := by simpa using hm'
      exact hqueued m' List.mem_cons_self
  | answered m => exact h.of_log rfl fun _ hm => by simpa [State.finish] using hm

theorem main_answers (h : Answers accepts s) (a b : Bool) : Answers accepts (main s a b) := by
  have hstep := mainStep s a b
  generalize main s a b = s' at hstep ⊢
  cases hstep with
  | stay => exact h
  | _ => exact h.of_log rfl fun _ hm => by simpa [State.hand, State.finish] using hm

theorem answers : ∀ s, (system accepts).Reachable s → Answers accepts s := by
  apply Transition.System.invariant
  · rintro s rfl
    exact ⟨by simp, by simp⟩
  · rintro s e s' - h rfl
    cases e with
    | arriveShell request | arriveControl request => exact h.of_log rfl fun _ hm => hm
    | watch => exact watch_answers h
    | busy => exact answerBusy_answers h
    | main a b => exact main_answers h a b

/-- **Where an `execute_request` goes**, if the interpreter does not answer it while it is busy. -/
theorem execute_route (hs : (system accepts).Reachable s)
    (haccepts : accepts .executeRequest = false) {m : Message} (hm : m ∈ s.arrivedShell)
    (htype : m.msgType = some .executeRequest) {route : Route} (h : .handed m route ∈ s.log) :
    route = .shellListener ∨ route = .abortCallback := by
  have hq := (refines_traffic accepts).reachable s hs
  have harrived := handed_arrived (traffic_accounted _ hq) h
  have hchannel : route.channel = .shell := (traffic_numbered _ hq).channel_eq harrived hm
  cases route with
  | shellListener => exact .inl rfl
  | abortCallback => exact .inr rfl
  | interruptHandler | controlListener => simp [Route.channel] at hchannel
  | busyHandler =>
    obtain ⟨t, ht, hyes⟩ := (answers s hs).handed m h
    rw [htype] at ht
    rw [← Option.some.inj ht, haccepts] at hyes
    cases hyes

end Jovian.Server
