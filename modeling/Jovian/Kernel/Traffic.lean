import Jovian.Kernel.ServerZmq
import Jovian.Lib.Log
import Mathlib.Data.List.Count
import Mathlib.Data.List.Nodup

/-!
# Jovian — the traffic through a kernel's queues

What the server's threads do to its messages, with the threads left out: each `Move` takes
one message from one place to another, or notes that one is done with. This is the abstract
model of the server's queues; the server refines it (`refines_traffic`).

* **`traffic_accounted`** — a message that has arrived is in one place only, or was handed
  over, once.
* **`traffic_lines`** — what waits on a channel waits in the order of its arrival: on the
  shell channel the busy queue, then the deferred queue, then the socket.
* **`traffic_in_turn`** — what was deferred is handed over before what was still in the socket.
-/

namespace Jovian.Server

/-! ## The abstract model -/

/-- What can become of the messages next. -/
inductive Move (q : Queues) : Queues → Prop where
  | finish (done : List Message) : Move q { q with log := q.log ++ done.map .finished }
  | arriveShell (request : Request) :
      Move q { q with
        shell := q.shell ++ [⟨q.arrivals, request⟩]
        arrivedShell := q.arrivedShell ++ [⟨q.arrivals, request⟩] }
  | arriveControl (request : Request) :
      Move q { q with
        control := q.control ++ [⟨q.arrivals, request⟩]
        arrivedControl := q.arrivedControl ++ [⟨q.arrivals, request⟩] }
  | dropShell (m : Message) (rest : List Message) (h : q.shell = m :: rest)
      (hm : m.msgType = none) :
      Move q { q with shell := rest, droppedShell := q.droppedShell ++ [m] }
  | dropControl (m : Message) (rest : List Message) (h : q.control = m :: rest)
      (hm : m.msgType = none) :
      Move q { q with control := rest, droppedControl := q.droppedControl ++ [m] }
  | interrupt (m : Message) (rest : List Message) (h : q.control = m :: rest)
      (hm : m.msgType = some .interruptRequest ∨ m.msgType = some .debugRequest) :
      Move q { q with control := rest, log := q.log ++ [.handed m .interruptHandler] }
  | deferControl (m : Message) (rest : List Message) (h : q.control = m :: rest) :
      Move q { q with control := rest, deferredControl := q.deferredControl ++ [m] }
  | toBusy (m : Message) (rest : List Message) (h : q.shell = m :: rest)
      (hnone : q.deferredShell = []) :
      Move q { q with shell := rest, busyQueue := q.busyQueue ++ [m] }
  | deferShell (m : Message) (rest : List Message) (h : q.shell = m :: rest) :
      Move q { q with shell := rest, deferredShell := q.deferredShell ++ [m] }
  | takeBusy (m : Message) (rest : List Message) (h : q.busyQueue = m :: rest) :
      Move q { q with busyQueue := rest, log := q.log ++ [.handed m .busyHandler] }
  | takeDeferredControl (m : Message) (rest : List Message) (h : q.deferredControl = m :: rest) :
      Move q { q with deferredControl := rest, log := q.log ++ [.handed m .controlListener] }
  | takeControl (m : Message) (rest : List Message) (h : q.control = m :: rest)
      (hnone : q.deferredControl = []) :
      Move q { q with control := rest, log := q.log ++ [.handed m .controlListener] }
  | takeDeferredShell (m : Message) (rest : List Message) (route : Route)
      (hroute : route = .shellListener ∨ route = .abortCallback)
      (h : q.deferredShell = m :: rest) :
      Move q { q with deferredShell := rest, log := q.log ++ [.handed m route] }
  | takeShell (m : Message) (rest : List Message) (route : Route)
      (hroute : route = .shellListener ∨ route = .abortCallback)
      (h : q.shell = m :: rest) (hnone : q.deferredShell = []) :
      Move q { q with shell := rest, log := q.log ++ [.handed m route] }

theorem Move.stay (q : Queues) : Move q q := by
  simpa using Move.finish (q := q) []

/-- The messages' traffic, as a transition system. -/
def traffic : Transition.System Queues Unit where
  init q := q = {}
  step q _ q' := Move q q'

/-! ## Every message is accounted for -/

def Route.channel : Route → Channel
  | .interruptHandler | .controlListener => .control
  | .busyHandler | .shellListener | .abortCallback => .shell

/-- The entry hands `m` over, on the channel. -/
def Entry.hands (channel : Channel) (m : Message) : Entry → Bool
  | .handed m' route => m' = m && route.channel = channel
  | .finished _ => false

/-- How often `m` was handed over on the channel. -/
def Queues.handings (q : Queues) (channel : Channel) (m : Message) : Nat :=
  q.log.countP (·.hands channel m)

structure Accounted (q : Queues) : Prop where
  shell : ∀ m, q.arrivedShell.count m =
    q.shell.count m + q.deferredShell.count m + q.busyQueue.count m + q.droppedShell.count m +
      q.handings .shell m
  control : ∀ m, q.arrivedControl.count m =
    q.control.count m + q.deferredControl.count m + q.droppedControl.count m +
      q.handings .control m

theorem finished_hands (done : List Message) (channel : Channel) (m : Message) :
    (done.map Entry.finished).countP (·.hands channel m) = 0 := by
  rw [List.countP_eq_zero]
  intro e he
  obtain ⟨d, -, rfl⟩ := List.mem_map.mp he
  simp [Entry.hands]

theorem Accounted.step {q q' : Queues} (h : Accounted q) (hmove : Move q q') : Accounted q' where
  shell m := by
    have := h.shell m
    cases hmove with
    | finish =>
      simp only [Queues.handings, List.countP_append, finished_hands, Nat.add_zero]
      exact this
    | takeDeferredShell _ _ _ hroute | takeShell _ _ _ hroute =>
      rcases hroute with rfl | rfl <;>
        simp_all [Queues.handings, Entry.hands, Route.channel, List.count_cons] <;> omega
    | _ => simp_all [Queues.handings, Entry.hands, Route.channel, List.count_cons] <;> omega
  control m := by
    have := h.control m
    cases hmove with
    | finish =>
      simp only [Queues.handings, List.countP_append, finished_hands, Nat.add_zero]
      exact this
    | takeDeferredShell _ _ _ hroute | takeShell _ _ _ hroute =>
      rcases hroute with rfl | rfl <;>
        simp_all [Queues.handings, Entry.hands, Route.channel]
    | _ => simp_all [Queues.handings, Entry.hands, Route.channel, List.count_cons] <;> omega

/-! ## The lines -/

namespace Queues

variable (q : Queues)

/-- What waits for its turn on the shell channel, next first. -/
def shellLine : List Message :=
  q.busyQueue ++ (q.deferredShell ++ q.shell)

def controlLine : List Message :=
  q.deferredControl ++ q.control

def line : Channel → List Message
  | .shell => q.shellLine
  | .control => q.controlLine

end Queues

structure Lines (q : Queues) : Prop where
  shell : q.shellLine.Sublist q.arrivedShell
  control : q.controlLine.Sublist q.arrivedControl

theorem Lines.step {q q' : Queues} (h : Lines q) (hmove : Move q q') : Lines q' where
  shell := by
    have hline := h.shell
    unfold Queues.shellLine at hline ⊢
    cases hmove with
    | arriveShell request =>
      show (q.busyQueue ++ (q.deferredShell ++ (q.shell ++ _))).Sublist _
      rw [← List.append_assoc q.deferredShell, ← List.append_assoc q.busyQueue]
      exact hline.append (List.Sublist.refl _)
    | toBusy m rest hshell hnone =>
      -- the front of the line stays at the front
      show ((q.busyQueue ++ [m]) ++ (q.deferredShell ++ rest)).Sublist _
      simpa [hshell, hnone] using hline
    | deferShell m rest hshell =>
      show (q.busyQueue ++ ((q.deferredShell ++ [m]) ++ rest)).Sublist _
      simpa [hshell] using hline
    | takeBusy m rest hbusy =>
      show (rest ++ (q.deferredShell ++ q.shell)).Sublist _
      rw [hbusy] at hline
      exact (List.sublist_cons_self _ _).trans hline
    | takeDeferredShell m rest route hroute hdeferred =>
      show (q.busyQueue ++ (rest ++ q.shell)).Sublist _
      rw [hdeferred] at hline
      exact ((List.Sublist.refl _).append (List.sublist_cons_self _ _)).trans hline
    | dropShell m rest hshell | takeShell m rest _ _ hshell =>
      show (q.busyQueue ++ (q.deferredShell ++ rest)).Sublist _
      rw [hshell] at hline
      refine List.Sublist.trans ?_ hline
      exact (List.Sublist.refl _).append ((List.Sublist.refl _).append (List.sublist_cons_self _ _))
    | _ => exact hline
  control := by
    have hline := h.control
    unfold Queues.controlLine at hline ⊢
    cases hmove with
    | arriveControl request =>
      show (q.deferredControl ++ (q.control ++ _)).Sublist _
      rw [← List.append_assoc]
      exact hline.append (List.Sublist.refl _)
    | deferControl m rest hcontrol =>
      show ((q.deferredControl ++ [m]) ++ rest).Sublist _
      simpa [hcontrol] using hline
    | takeDeferredControl m rest hdeferred =>
      show (rest ++ q.control).Sublist _
      rw [hdeferred] at hline
      exact (List.sublist_cons_self _ _).trans hline
    | dropControl m rest hcontrol | interrupt m rest hcontrol | takeControl m rest hcontrol =>
      show (q.deferredControl ++ rest).Sublist _
      rw [hcontrol] at hline
      exact ((List.Sublist.refl _).append (List.sublist_cons_self _ _)).trans hline
    | _ => exact hline

/-- A message's `id` tells it from every other, and what arrived before it. -/
structure Numbered (q : Queues) : Prop where
  shell : q.arrivedShell.Pairwise (·.id < ·.id)
  control : q.arrivedControl.Pairwise (·.id < ·.id)
  bound : ∀ m ∈ q.arrivedShell ++ q.arrivedControl, m.id < q.arrivals
  apart : ∀ m ∈ q.arrivedShell, ∀ m' ∈ q.arrivedControl, m.id ≠ m'.id

theorem Numbered.step {q q' : Queues} (h : Numbered q) (hmove : Move q q') : Numbered q' := by
  have hbound := h.bound
  simp only [List.mem_append] at hbound
  cases hmove with
  | arriveShell request =>
    refine ⟨?_, h.control, ?_, ?_⟩
    · refine List.pairwise_append.mpr ⟨h.shell, List.pairwise_singleton _ _, ?_⟩
      rintro m hm m' hm'
      obtain rfl := List.mem_singleton.mp hm'
      exact hbound m (.inl hm)
    · intro m hm
      have : m = ⟨q.arrivals, request⟩ ∨ m.id < q.arrivals := by
        simp only [List.mem_append, List.mem_singleton] at hm
        rcases hm with (hm | hm) | hm
        · exact .inr (hbound m (.inl hm))
        · exact .inl hm
        · exact .inr (hbound m (.inr hm))
      simp only [Queues.arrivals, List.length_append, List.length_singleton] at this ⊢
      rcases this with rfl | this
      · show _ + _ < _
        omega
      · omega
    · -- the new message's number is nobody's yet
      intro m hm m' hm'
      rcases List.mem_append.mp hm with hm | hm
      · exact h.apart m hm m' hm'
      · obtain rfl := List.mem_singleton.mp hm
        have := hbound m' (.inr hm')
        simp only
        omega
  | arriveControl request =>
    refine ⟨h.shell, ?_, ?_, ?_⟩
    · refine List.pairwise_append.mpr ⟨h.control, List.pairwise_singleton _ _, ?_⟩
      rintro m hm m' hm'
      obtain rfl := List.mem_singleton.mp hm'
      exact hbound m (.inr hm)
    · intro m hm
      have : m = ⟨q.arrivals, request⟩ ∨ m.id < q.arrivals := by
        simp only [List.mem_append, List.mem_singleton] at hm
        rcases hm with hm | hm | hm
        · exact .inr (hbound m (.inl hm))
        · exact .inr (hbound m (.inr hm))
        · exact .inl hm
      simp only [Queues.arrivals, List.length_append, List.length_singleton] at this ⊢
      rcases this with rfl | this
      · show _ + _ < _
        omega
      · omega
    · intro m hm m' hm'
      rcases List.mem_append.mp hm' with hm' | hm'
      · exact h.apart m hm m' hm'
      · obtain rfl := List.mem_singleton.mp hm'
        have := hbound m (.inl hm)
        simp only
        omega
  | _ => exact ⟨h.shell, h.control, h.bound, h.apart⟩

theorem Lines.shell_sorted {q : Queues} (h : Lines q) (hn : Numbered q) :
    q.shellLine.Pairwise (·.id < ·.id) :=
  hn.shell.sublist h.shell

theorem Lines.control_sorted {q : Queues} (h : Lines q) (hn : Numbered q) :
    q.controlLine.Pairwise (·.id < ·.id) :=
  hn.control.sublist h.control

/-! ## What was deferred keeps its turn -/

/-- In the log `m` is handed over, by an interrupt handler or after `d` was. -/
def InTurn (log : List Entry) (d m : Message) : Prop :=
  ∀ before route after, log = before ++ .handed m route :: after → route ≠ .interruptHandler →
    ∃ route', .handed d route' ∈ before

/-- What is finished hands nothing over. -/
theorem handed_finish {log before after : List Entry} {done : List Message} {m : Message}
    {route : Route} (h : log ++ done.map .finished = before ++ .handed m route :: after) :
    ∃ after', log = before ++ .handed m route :: after' := by
  induction done using List.reverseRecOn generalizing after with
  | nil => exact ⟨after, by simpa using h⟩
  | append_singleton done d ih =>
    rw [List.map_append, List.map_singleton, ← List.append_assoc] at h
    obtain ⟨after', -, hlog⟩ := Log.split_snoc_of_ne (by simp) h
    exact ih hlog

theorem InTurn.concat {log : List Entry} {d m : Message} {e : Entry} (h : InTurn log d m)
    (he : ∀ route, e = .handed m route → route ≠ .interruptHandler →
      ∃ route', .handed d route' ∈ log) : InTurn (log ++ [e]) d m := by
  intro before route after heq hroute
  rcases Log.split_snoc heq with ⟨-, rfl, hlast⟩ | ⟨after', -, hlog⟩
  · exact he route hlast.symm hroute
  · exact h before route after' hlog hroute

theorem InTurn.finish {log : List Entry} {d m : Message} (h : InTurn log d m)
    (done : List Message) : InTurn (log ++ done.map .finished) d m := by
  intro before route after heq hroute
  obtain ⟨after', hlog⟩ := handed_finish heq
  exact h before route after' hlog hroute

namespace Queues

variable (q : Queues)

def socket : Channel → List Message
  | .shell => q.shell
  | .control => q.control

def deferred : Channel → List Message
  | .shell => q.deferredShell
  | .control => q.deferredControl

def arrived : Channel → List Message
  | .shell => q.arrivedShell
  | .control => q.arrivedControl

end Queues

/-- `d`, which came first, was handed over or is still deferred; and `m` has not overtaken it. -/
structure KeepsTurn (channel : Channel) (d m : Message) (q : Queues) : Prop where
  inTurn : InTurn q.log d m
  waiting : (∃ route, .handed d route ∈ q.log) ∨ d ∈ q.deferred channel
  arrived : m ∈ q.arrived channel
  first : d.id < m.id

/-- The next message to be taken in its turn, and the channel it is taken from. -/
def Takes (q : Queues) (channel : Channel) (m : Message) : Prop :=
  match channel with
  | .shell => q.busyQueue.head? = some m ∨ q.deferredShell.head? = some m ∨
      q.deferredShell = [] ∧ q.shell.head? = some m
  | .control => q.deferredControl.head? = some m ∨
      q.deferredControl = [] ∧ q.control.head? = some m

/-- What is taken arrived on the channel, and no deferred message came before it. -/
theorem Takes.first {q : Queues} {channel : Channel} {m d : Message} (h : Takes q channel m)
    (hl : Lines q) (hn : Numbered q) (hd : d ∈ q.deferred channel) :
    m ∈ q.arrived channel ∧ m.id ≤ d.id := by
  cases channel with
  | shell =>
    have hsub := hl.shell
    have hsorted := hl.shell_sorted hn
    unfold Queues.shellLine at hsub hsorted
    -- the busy queue comes first, then what is deferred; the socket only when nothing is
    rcases h with h | h | ⟨hnone, -⟩
    · obtain ⟨rest, hrest⟩ := List.head?_eq_some_iff.mp h
      rw [hrest] at hsub hsorted
      refine ⟨hsub.subset (by simp), ?_⟩
      have hbehind : d ∈ rest ++ (q.deferredShell ++ q.shell) :=
        List.mem_append_right _ (List.mem_append_left _ hd)
      exact Nat.le_of_lt (List.rel_of_pairwise_cons hsorted hbehind)
    · obtain ⟨rest, hrest⟩ := List.head?_eq_some_iff.mp h
      change d ∈ q.deferredShell at hd
      rw [hrest] at hsub hsorted hd
      refine ⟨hsub.subset (by simp), ?_⟩
      rcases List.mem_cons.mp hd with rfl | hd
      · exact Nat.le_refl _
      · have hline := (List.pairwise_append.mp hsorted).2.1
        exact Nat.le_of_lt (List.rel_of_pairwise_cons hline (List.mem_append_left _ hd))
    · change d ∈ q.deferredShell at hd
      rw [hnone] at hd
      cases hd
  | control =>
    have hsub := hl.control
    have hsorted := hl.control_sorted hn
    unfold Queues.controlLine at hsub hsorted
    rcases h with h | ⟨hnone, -⟩
    · obtain ⟨rest, hrest⟩ := List.head?_eq_some_iff.mp h
      change d ∈ q.deferredControl at hd
      rw [hrest] at hsub hsorted hd
      refine ⟨hsub.subset (by simp), ?_⟩
      rcases List.mem_cons.mp hd with rfl | hd
      · exact Nat.le_refl _
      · exact Nat.le_of_lt (List.rel_of_pairwise_cons hsorted (List.mem_append_left _ hd))
    · change d ∈ q.deferredControl at hd
      rw [hnone] at hd
      cases hd

section Move

variable {q q' : Queues}

/-- **What a move adds to the log.** -/
theorem Move.log (hmove : Move q q') :
    (∃ done : List Message, q'.log = q.log ++ done.map .finished) ∨
      ∃ m route, q'.log = q.log ++ [.handed m route] ∧
        (route = .interruptHandler ∨ ∃ channel, Takes q channel m) := by
  cases hmove with
  | finish done => exact .inl ⟨done, rfl⟩
  | interrupt m => exact .inr ⟨m, _, rfl, .inl rfl⟩
  | takeBusy m _ h => exact .inr ⟨m, _, rfl, .inr ⟨.shell, .inl (by simp [h])⟩⟩
  | takeDeferredControl m _ h => exact .inr ⟨m, _, rfl, .inr ⟨.control, .inl (by simp [h])⟩⟩
  | takeControl m _ h hnone =>
    exact .inr ⟨m, _, rfl, .inr ⟨.control, .inr ⟨hnone, by simp [h]⟩⟩⟩
  | takeDeferredShell m _ route _ h =>
    exact .inr ⟨m, route, rfl, .inr ⟨.shell, .inr (.inl (by simp [h]))⟩⟩
  | takeShell m _ route _ h hnone =>
    exact .inr ⟨m, route, rfl, .inr ⟨.shell, .inr (.inr ⟨hnone, by simp [h]⟩)⟩⟩
  | _ => exact .inl ⟨[], by simp⟩

/-- A deferred message stays deferred until it is handed over. -/
theorem Move.deferred (hmove : Move q q') {channel : Channel} {d : Message}
    (hd : d ∈ q.deferred channel) :
    d ∈ q'.deferred channel ∨ ∃ route, .handed d route ∈ q'.log := by
  cases channel with
  | shell =>
    change d ∈ q.deferredShell at hd
    show d ∈ q'.deferredShell ∨ _
    cases hmove with
    | deferShell => exact .inl (List.mem_append_left _ hd)
    | takeDeferredShell m rest route _ h =>
      rw [h] at hd
      rcases List.mem_cons.mp hd with rfl | hd
      · exact .inr ⟨route, by simp⟩
      · exact .inl hd
    | _ => exact .inl hd
  | control =>
    change d ∈ q.deferredControl at hd
    show d ∈ q'.deferredControl ∨ _
    cases hmove with
    | deferControl => exact .inl (List.mem_append_left _ hd)
    | takeDeferredControl m rest h =>
      rw [h] at hd
      rcases List.mem_cons.mp hd with rfl | hd
      · exact .inr ⟨.controlListener, by simp⟩
      · exact .inl hd
    | _ => exact .inl hd

theorem Move.arrived (hmove : Move q q') {channel : Channel} {m : Message}
    (hm : m ∈ q.arrived channel) : m ∈ q'.arrived channel := by
  cases channel with
  | shell =>
    cases hmove with
    | arriveShell => exact List.mem_append_left _ hm
    | _ => exact hm
  | control =>
    cases hmove with
    | arriveControl => exact List.mem_append_left _ hm
    | _ => exact hm

theorem Move.arrivals_le (hmove : Move q q') : q.arrivals ≤ q'.arrivals := by
  cases hmove with
  | arriveShell | arriveControl =>
    simp only [Queues.arrivals, List.length_append, List.length_singleton]
    omega
  | _ => exact Nat.le_refl _

theorem Takes.arrived {channel : Channel} {m : Message} (h : Takes q channel m) (hl : Lines q) :
    m ∈ q.arrived channel := by
  cases channel with
  | shell =>
    refine hl.shell.subset ?_
    unfold Queues.shellLine
    rcases h with h | h | ⟨-, h⟩ <;> obtain ⟨rest, hrest⟩ := List.head?_eq_some_iff.mp h <;>
      simp [hrest]
  | control =>
    refine hl.control.subset ?_
    unfold Queues.controlLine
    rcases h with h | ⟨-, h⟩ <;> obtain ⟨rest, hrest⟩ := List.head?_eq_some_iff.mp h <;>
      simp [hrest]

/-- A message arrived on one channel. -/
theorem Numbered.channel_eq (hn : Numbered q) {channel channel' : Channel} {m : Message}
    (h : m ∈ q.arrived channel) (h' : m ∈ q.arrived channel') : channel = channel' := by
  cases channel <;> cases channel'
  · rfl
  · exact absurd rfl (hn.apart m h m h')
  · exact absurd rfl (hn.apart m h' m h)
  · rfl

/-- **One move.** What was deferred keeps its turn. -/
theorem KeepsTurn.step {channel : Channel} {d m : Message} (h : KeepsTurn channel d m q)
    (hl : Lines q) (hn : Numbered q) (hmove : Move q q') : KeepsTurn channel d m q' := by
  have hlog : q.log <+: q'.log := by
    rcases hmove.log with ⟨done, hlog⟩ | ⟨m', route, hlog, -⟩ <;> exact ⟨_, hlog.symm⟩
  refine ⟨?_, ?_, hmove.arrived h.arrived, h.first⟩
  · rcases hmove.log with ⟨done, hlog⟩ | ⟨m', route, hlog, htakes⟩
    · rw [hlog]
      exact h.inTurn.finish done
    · rw [hlog]
      refine h.inTurn.concat fun route' heq hroute' => ?_
      obtain ⟨rfl, rfl⟩ : m' = m ∧ route = route' := by simpa using heq
      obtain ⟨channel', htakes⟩ := htakes.resolve_left hroute'
      obtain rfl := hn.channel_eq (htakes.arrived hl) h.arrived
      -- had `d` not been handed over, it would be before `m`
      refine h.waiting.resolve_right fun hd => ?_
      have := (htakes.first hl hn hd).2
      have := h.first
      omega
  · rcases h.waiting with ⟨route, hd⟩ | hd
    · exact .inl ⟨route, hlog.subset hd⟩
    · rcases hmove.deferred hd with hd | hd
      · exact .inr hd
      · exact .inl hd

end Move

/-! ## Every run -/

theorem accounted_init : Accounted {} where
  shell m := by simp [Queues.handings]
  control m := by simp [Queues.handings]

theorem traffic_accounted : ∀ q, traffic.Reachable q → Accounted q :=
  Transition.System.invariant (by rintro q rfl; exact accounted_init)
    fun _ _ _ _ h hmove => h.step hmove

theorem traffic_lines : ∀ q, traffic.Reachable q → Lines q :=
  Transition.System.invariant (by rintro q rfl; exact ⟨.slnil, .slnil⟩)
    fun _ _ _ _ h hmove => h.step hmove

theorem traffic_numbered : ∀ q, traffic.Reachable q → Numbered q :=
  Transition.System.invariant (by rintro q rfl; exact ⟨.nil, .nil, nofun, nofun⟩)
    fun _ _ _ _ h hmove => h.step hmove

/-- Only what cannot be looked at is dropped. -/
theorem traffic_dropped : ∀ q, traffic.Reachable q →
    ∀ m ∈ q.droppedShell ++ q.droppedControl, m.msgType = none := by
  apply Transition.System.invariant
  · rintro q rfl
    exact nofun
  · intro q e q' _ h hmove m hm
    cases hmove with
    | dropShell d rest _ hd =>
      simp only [List.mem_append, List.mem_singleton] at h hm
      rcases hm with (hm | rfl) | hm
      · exact h m (.inl hm)
      · exact hd
      · exact h m (.inr hm)
    | dropControl d rest _ hd =>
      simp only [List.mem_append, List.mem_singleton] at h hm
      rcases hm with hm | hm | rfl
      · exact h m (.inl hm)
      · exact h m (.inr hm)
      · exact hd
    | _ => exact h m hm

/-- Only interrupts and debug requests go to the interrupt handler. -/
theorem traffic_interrupts : ∀ q, traffic.Reachable q → ∀ m, .handed m .interruptHandler ∈ q.log →
    m.msgType = some .interruptRequest ∨ m.msgType = some .debugRequest := by
  apply Transition.System.invariant
  · rintro q rfl
    exact nofun
  · intro q e q' _ h hmove m hm
    cases hmove with
    | interrupt d _ _ hd =>
      rcases List.mem_append.mp hm with hm | hm
      · exact h m hm
      · obtain rfl : m = d := by simpa using hm
        exact hd
    | takeDeferredShell _ _ _ hroute | takeShell _ _ _ hroute =>
      rcases hroute with rfl | rfl <;> exact h m (by simpa using hm)
    | _ => exact h m (by simpa using hm)

section Once

variable {q : Queues}

theorem handings_pos {m : Message} {route : Route} (h : .handed m route ∈ q.log) :
    0 < q.handings route.channel m :=
  List.countP_pos_iff.mpr ⟨_, h, by simp [Entry.hands]⟩

theorem Numbered.arrived_nodup (hn : Numbered q) (channel : Channel) :
    (q.arrived channel).Nodup := by
  have hsorted : (q.arrived channel).Pairwise (·.id < ·.id) := by
    cases channel with
    | shell => exact hn.shell
    | control => exact hn.control
  refine hsorted.imp fun hlt heq => ?_
  rw [heq] at hlt
  exact Nat.lt_irrefl _ hlt

theorem Numbered.arrived_other (hn : Numbered q) {channel channel' : Channel} {m : Message}
    (hm : m ∈ q.arrived channel) (hne : channel' ≠ channel) : (q.arrived channel').count m = 0 :=
  List.count_eq_zero.mpr fun hm' => hne (hn.channel_eq hm' hm)

/-- A message is handed over on the channel it arrived on. -/
theorem handed_arrived (ha : Accounted q) {m : Message} {route : Route}
    (h : .handed m route ∈ q.log) : m ∈ q.arrived route.channel := by
  have hpos := handings_pos h
  refine List.count_pos_iff.mp ?_
  cases hc : route.channel with
  | shell =>
    rw [hc] at hpos
    show 0 < q.arrivedShell.count m
    rw [ha.shell m]
    omega
  | control =>
    rw [hc] at hpos
    show 0 < q.arrivedControl.count m
    rw [ha.control m]
    omega

/-- What waits in a line has not been handed over. -/
theorem not_handed_of_line (ha : Accounted q) (hn : Numbered q) {channel : Channel} {m : Message}
    (hm : m ∈ q.line channel) (route : Route) : .handed m route ∉ q.log := by
  intro h
  have hpos := handings_pos h
  have harrived := handed_arrived ha h
  have hcount := List.nodup_iff_count_le_one.mp (hn.arrived_nodup channel) m
  have hline : 0 < (q.line channel).count m := List.count_pos_iff.mpr hm
  by_cases hc : route.channel = channel
  · -- it would have arrived twice
    rw [hc] at hpos
    cases channel with
    | shell =>
      change q.arrivedShell.count m ≤ 1 at hcount
      rw [ha.shell m] at hcount
      simp only [Queues.line, Queues.shellLine, List.count_append] at hline
      omega
    | control =>
      change q.arrivedControl.count m ≤ 1 at hcount
      rw [ha.control m] at hcount
      simp only [Queues.line, Queues.controlLine, List.count_append] at hline
      omega
  · -- it would have arrived on both channels
    have hnone := hn.arrived_other harrived (Ne.symm hc)
    cases channel with
    | shell =>
      change q.arrivedShell.count m = 0 at hnone
      rw [ha.shell m] at hnone
      simp only [Queues.line, Queues.shellLine, List.count_append] at hline
      omega
    | control =>
      change q.arrivedControl.count m = 0 at hnone
      rw [ha.control m] at hnone
      simp only [Queues.line, Queues.controlLine, List.count_append] at hline
      omega

theorem socket_line {channel : Channel} {m : Message} (hm : m ∈ q.socket channel) :
    m ∈ q.line channel := by
  cases channel with
  | shell => exact List.mem_append_right _ (List.mem_append_right _ hm)
  | control => exact List.mem_append_right _ hm

/-- What is deferred arrived before what is in the socket. -/
theorem deferred_first (hl : Lines q) (hn : Numbered q) {channel : Channel} {d m : Message}
    (hd : d ∈ q.deferred channel) (hm : m ∈ q.socket channel) : d.id < m.id := by
  cases channel with
  | shell =>
    have hsorted := (List.pairwise_append.mp (hl.shell_sorted hn)).2.1
    exact (List.pairwise_append.mp hsorted).2.2 d hd m hm
  | control => exact (List.pairwise_append.mp (hl.control_sorted hn)).2.2 d hd m hm

theorem keepsTurn_init (ha : Accounted q) (hl : Lines q) (hn : Numbered q) {channel : Channel}
    {d m : Message} (hd : d ∈ q.deferred channel) (hm : m ∈ q.socket channel) :
    KeepsTurn channel d m q where
  inTurn before route after hlog _ := by
    refine absurd ?_ (not_handed_of_line ha hn (socket_line hm) route)
    rw [hlog]
    simp
  waiting := .inr hd
  arrived := by
    cases channel with
    | shell => exact hl.shell.subset (List.mem_append_right _ (List.mem_append_right _ hm))
    | control => exact hl.control.subset (List.mem_append_right _ hm)
  first := deferred_first hl hn hd hm

end Once

/-- **Deferred before in the socket.** From a reachable state with `d` deferred and `m` in the
socket of its channel, no run hands `m` over to its listener before `d`. -/
theorem traffic_in_turn {q q' : Queues} {es : List Unit} (hq : traffic.Reachable q)
    (hrun : traffic.Run q es q') {channel : Channel} {d m : Message}
    (hd : d ∈ q.deferred channel) (hm : m ∈ q.socket channel) : InTurn q'.log d m := by
  have hl := traffic_lines q hq
  have hn := traffic_numbered q hq
  let P (q : Queues) : Prop := KeepsTurn channel d m q ∧ Lines q ∧ Numbered q
  have hstart : P q := ⟨keepsTurn_init (traffic_accounted q hq) hl hn hd hm, hl, hn⟩
  have hend : P q' := hrun.invariant hstart fun _ _ _ ⟨h, hl, hn⟩ hmove =>
    ⟨h.step hl hn hmove, hl.step hmove, hn.step hmove⟩
  exact hend.1.inTurn

end Jovian.Server
