import Jovian.Supervisor.Relay
import Mathlib.Data.List.TakeWhile

/-!
# Jovian — what is relayed before a kernel's exit is reported

Nothing is lost on the way from a socket to the client, and nothing is relayed twice
(`Books`). What is left is whether the last drain is late enough. For the sockets the poll
thread reads itself it is: it looked for the exit first. For iopub it is not by itself: a
message still in the SUB socket, or in the iopub thread's hand, when `drainIopub` finds the
queue empty for the last time is never relayed.

**`relays_iff`**: in every state of a run every channel the poll thread is done with has
relayed what had reached it before the exit was found, before the `kernelExit` frame, exactly
when the last `drainIopub` ends with no such message still on its way to the queue.
-/

namespace Jovian.Relay

variable {describeStatus : String} {s s' : State}

/-! ## The property -/

/-- The channels the poll thread will not read again, the process having been found gone. -/
def Pc.finished : Pc → List Channel
  | .drainShell true => [.iopub]
  | .drainControl true => [.iopub, .shell]
  | .drainStdin true => [.iopub, .shell, .control]
  | .checkExit true | .report | .left => [.iopub, .shell, .control, .stdin]
  | _ => []

/-- The channel's frames that come before the first `kernelExit`. -/
def State.beforeExit (s : State) (ch : Channel) : List Envelope :=
  (s.emitted.takeWhile Frame.isMessage).filterMap (Frame.on? ch)

/-- A channel the poll thread is done with has relayed all that had reached it when the
process was found gone, before the exit is reported. -/
def Complete (s : State) : Prop :=
  ∀ reached, s.reachedAtExit = some reached → ∀ ch ∈ s.pc.finished,
    (reached.get ch).map (relayed ch) <+: s.beforeExit ch

/-- What the relay is for. -/
structure Relays (s : State) : Prop where
  /-- Every message is relayed once, in the order it reached its socket. -/
  once : ∀ ch, s.relayedOn ch ++ (s.waiting ch).map (relayed ch) = (s.reached.get ch).map (relayed ch)
  /-- The exit is reported only once the poll thread is done. -/
  quiet : s.pc ≠ .left → ∀ reason, .kernelExit reason ∉ s.emitted
  complete : Complete s

/-- When the last `drainIopub` ends, no iopub message from before the exit was found is
still on its way to the queue. -/
def CaughtUp (s : State) (e : Event) : Prop :=
  e = .poll → s.pc = .drainIopub true → s.messageQueue = [] → s.unpushed = []

/-! ## The books -/

/-- Whether the process has been found gone this time round. -/
def Pc.exited : Pc → Bool
  | .drainIopub exited | .drainShell exited | .drainControl exited | .drainStdin exited
  | .checkExit exited => exited
  | .report => true
  | .checkPolling | .sampleExit | .waitForActivity | .left => false

/-- Where every message that reached a socket is. -/
structure Books (s : State) : Prop where
  read : ∀ ch, ∃ done, done ++ s.waiting ch = s.reached.get ch ∧ s.relayedOn ch = done.map (relayed ch)
  before : ∀ reached, s.reachedAtExit = some reached → ∀ ch, reached.get ch <+: s.reached.get ch
  exited : s.pc.exited = true → s.reachedAtExit ≠ none
  found : s.reachedAtExit ≠ none → s.pc.exited = true ∨ s.pc = .left
  quiet : s.pc ≠ .left → ∀ reason, .kernelExit reason ∉ s.emitted

theorem books_init : Books {} where
  read ch := ⟨[], by cases ch <;> exact ⟨rfl, rfl⟩⟩
  before := by simp
  exited := by simp [Pc.exited]
  found := by simp
  quiet := by simp

theorem name_injective {ch ch' : Channel} (h : ch.name = ch'.name) : ch = ch' := by
  cases ch <;> cases ch' <;> first | rfl | exact absurd h (by decide)

theorem relayedOn_emit_self (s : State) (ch : Channel) (msg : Message) :
    (emit s ch msg).relayedOn ch = s.relayedOn ch ++ [relayed ch msg] := by
  simp [emit, State.relayedOn, Frame.on?, relayed, frameFor]

theorem relayedOn_emit_ne (s : State) {ch ch' : Channel} (h : ch' ≠ ch) (msg : Message) :
    (emit s ch msg).relayedOn ch' = s.relayedOn ch' := by
  have hname : ch.name ≠ ch'.name := fun heq => h (name_injective heq).symm
  simp [emit, State.relayedOn, Frame.on?, relayed, frameFor, hname]

/-- Until the poll thread has left, only messages are emitted. -/
theorem Books.messages (h : Books s) (hpc : s.pc ≠ .left) :
    ∀ frame ∈ s.emitted, frame.isMessage = true := by
  intro frame hframe
  cases frame with
  | message envelope => rfl
  | kernelExit reason => exact absurd hframe (h.quiet hpc reason)

theorem Books.beforeExit_eq (h : Books s) (hpc : s.pc ≠ .left) (ch : Channel) :
    s.beforeExit ch = s.relayedOn ch := by
  rw [State.beforeExit, List.takeWhile_eq_self_iff.mpr (h.messages hpc), State.relayedOn]

namespace Books

/-- A step that leaves the order of the messages, and the poll thread, alone. -/
theorem aside (h : Books s) (hwaiting : ∀ ch, s'.waiting ch = s.waiting ch)
    (hreached : s'.reached = s.reached) (hexit : s'.reachedAtExit = s.reachedAtExit)
    (hpc : s'.pc = s.pc) (hemitted : s'.emitted = s.emitted) : Books s' := by
  constructor
  · intro ch
    rw [hwaiting, hreached, State.relayedOn, hemitted]
    exact h.read ch
  · rw [hexit, hreached]
    exact h.before
  · rw [hpc, hexit]
    exact h.exited
  · rw [hpc, hexit]
    exact h.found
  · rw [hpc, hemitted]
    exact h.quiet

theorem reach (h : Books s) (ch : Channel) (msg : Message) :
    Books (step describeStatus s (.reach ch msg)) := by
  have hwaiting : ∀ ch', (step describeStatus s (.reach ch msg)).waiting ch' =
      s.waiting ch' ++ if ch' = ch then [msg] else [] := by
    intro ch'
    cases ch <;> cases ch' <;> simp [step, State.waiting, PerChannel.set, PerChannel.get]
  have hreached : ∀ ch', (step describeStatus s (.reach ch msg)).reached.get ch' =
      s.reached.get ch' ++ if ch' = ch then [msg] else [] := by
    intro ch'
    by_cases heq : ch' = ch
    · simp [step, heq]
    · simp [step, PerChannel.get_set_ne _ heq, heq]
  refine ⟨fun ch' => ?_, fun r hr ch' => ?_, h.exited, h.found, h.quiet⟩
  · obtain ⟨done, hdone, hrelayed⟩ := h.read ch'
    refine ⟨done, ?_, hrelayed⟩
    rw [hwaiting, hreached, ← List.append_assoc, hdone]
  · rw [hreached]
    exact (h.before r hr ch').trans (List.prefix_append _ _)

/-- The poll thread goes on to `pc`, the exit having been found before or not. -/
theorem setPc (h : Books s) {pc : Pc} (hpc : s.pc ≠ .left) (hexited : pc.exited = s.pc.exited) :
    Books { s with pc } := by
  refine ⟨h.read, h.before, fun he => h.exited (hexited ▸ he), fun hne => ?_, fun _ => h.quiet hpc⟩
  rcases h.found hne with he | hl
  · exact .inl (hexited.trans he)
  · exact absurd hl hpc

/-- The poll thread relays the first message waiting on a channel. -/
theorem relay (h : Books s) (hpc : s.pc ≠ .left) {ch : Channel} {msg : Message}
    (hwaiting : s.waiting ch = msg :: s'.waiting ch)
    (hother : ∀ ch', ch' ≠ ch → s'.waiting ch' = s.waiting ch') (hreached : s'.reached = s.reached)
    (hexit : s'.reachedAtExit = s.reachedAtExit) (hpc' : s'.pc = s.pc)
    (hemitted : s'.emitted = (emit s ch msg).emitted) : Books s' := by
  refine ⟨fun ch' => ?_, by rw [hexit, hreached]; exact h.before, by rw [hpc', hexit]; exact h.exited,
    by rw [hpc', hexit]; exact h.found, fun _ reason hmem => ?_⟩
  · obtain ⟨done, hdone, hrelayed⟩ := h.read ch'
    have hon : s'.relayedOn ch' = (emit s ch msg).relayedOn ch' := by
      rw [State.relayedOn, hemitted]
      rfl
    rw [hon, hreached]
    by_cases heq : ch' = ch
    · subst heq
      refine ⟨done ++ [msg], ?_, ?_⟩
      · rw [List.append_assoc, ← hdone, hwaiting]
        rfl
      · rw [relayedOn_emit_self, hrelayed, List.map_append]
        rfl
    · exact ⟨done, by rw [hother ch' heq, hdone], by rw [relayedOn_emit_ne s heq, hrelayed]⟩
  · rw [hemitted] at hmem
    rcases List.mem_append.mp hmem with hmem | hmem
    · exact h.quiet hpc reason hmem
    · exact nomatch List.mem_singleton.mp hmem

theorem popIopub (h : Books s) (hpc : s.pc ≠ .left) {msg : Message} {rest : List Message}
    (hqueue : s.messageQueue = msg :: rest) : Books (emit { s with messageQueue := rest } .iopub msg) := by
  refine @relay s _ h hpc .iopub msg ?_ ?_ rfl rfl rfl rfl
  · simp [State.waiting, hqueue, emit]
  · intro ch' hne
    cases ch' <;> first | rfl | exact absurd rfl hne

theorem drainSocket (h : Books s) (hpc : s.pc ≠ .left) {ch : Channel} (hch : ch ≠ .iopub) {next : Pc}
    (hnext : next.exited = s.pc.exited) : Books (drainSocket s ch next) := by
  unfold Relay.drainSocket
  split
  · next msg rest hsocket =>
    refine @relay s _ h hpc ch msg ?_ ?_ rfl rfl rfl rfl
    · cases ch with
      | iopub => exact absurd rfl hch
      | _ => simpa [State.waiting, emit, PerChannel.set, PerChannel.get] using hsocket
    · intro ch' hne
      cases ch <;> cases ch' <;> first | rfl | exact absurd rfl hne
  · exact h.setPc hpc hnext

/-- **Every step of the poll thread keeps the books.** -/
theorem poll (h : Books s) : Books (poll describeStatus s) := by
  unfold Relay.poll
  cases hpc : s.pc with
  | checkPolling =>
    dsimp only
    split
    · exact h.setPc (by simp [hpc]) (by simp [hpc, Pc.exited])
    · exact ⟨h.read, h.before, by simp [Pc.exited], fun _ => .inr rfl, fun hne => absurd rfl hne⟩
  | sampleExit =>
    dsimp only
    split
    · exact h.setPc (by simp [hpc]) (by simp [hpc, Pc.exited])
    · exact ⟨h.read, fun r hr ch => Option.some.inj hr ▸ List.prefix_refl _, by simp, fun _ => .inl rfl,
        fun _ => h.quiet (by simp [hpc])⟩
  | drainIopub exited =>
    dsimp only
    split
    · next msg rest hqueue => exact hpc ▸ h.popIopub (by simp [hpc]) hqueue
    · exact h.setPc (by simp [hpc]) (by simp [hpc, Pc.exited])
  | drainShell exited => exact h.drainSocket (by simp [hpc]) (by simp) (by simp [hpc, Pc.exited])
  | drainControl exited => exact h.drainSocket (by simp [hpc]) (by simp) (by simp [hpc, Pc.exited])
  | drainStdin exited => exact h.drainSocket (by simp [hpc]) (by simp) (by simp [hpc, Pc.exited])
  | checkExit exited =>
    have hquiet := h.quiet (by simp [hpc])
    dsimp only
    split
    · next hexited =>
      split
      · exact ⟨h.read, h.before, by simp [Pc.exited], fun _ => .inr rfl, fun hne => absurd rfl hne⟩
      · exact ⟨h.read, h.before, fun _ => h.exited (by simp [hpc, Pc.exited, hexited]), fun _ => .inl rfl,
          fun _ => hquiet⟩
    · next hexited =>
      exact h.setPc (by simp [hpc]) (by simp [hpc, Pc.exited, hexited])
  | report =>
    refine ⟨fun ch => ?_, h.before, by simp [Pc.exited], fun _ => .inr rfl, fun hne => absurd rfl hne⟩
    obtain ⟨done, hdone, hrelayed⟩ := h.read ch
    exact ⟨done, hdone, List.filterMap_append.trans ((List.append_nil _).trans hrelayed)⟩
  | waitForActivity => exact h.setPc (by simp [hpc]) (by simp [hpc, Pc.exited])
  | left => exact h

/-- **Every step keeps the books.** -/
theorem step (h : Books s) (e : Event) : Books (step describeStatus s e) := by
  cases e with
  | reach ch msg => exact h.reach ch msg
  | exit | expectExit | stopPolling => exact h.aside (fun ch => by cases ch <;> rfl) rfl rfl rfl rfl
  | receive =>
    unfold Relay.step
    dsimp only
    split
    · next msg rest hhand hsocket =>
      refine h.aside (fun ch => ?_) rfl rfl rfl rfl
      cases ch <;> simp [State.waiting, hhand, hsocket, PerChannel.set, PerChannel.get]
    · exact h
  | push =>
    unfold Relay.step
    dsimp only
    split
    · next msg hhand =>
      refine h.aside (fun ch => ?_) rfl rfl rfl rfl
      cases ch <;> simp [State.waiting, hhand]
    · exact h
  | poll => exact h.poll

end Books

theorem books_run (describeStatus : String) (es : List Event) : Books (run describeStatus es) := by
  refine Transition.System.invariant (M := system describeStatus) ?_ ?_ _
    (Transition.System.reachable_foldl ({} : State) (step describeStatus) es)
  · rintro s rfl
    exact books_init
  · rintro s e _ - h rfl
    exact h.step e

theorem run_snoc (es : List Event) (e : Event) :
    run describeStatus (es ++ [e]) = step describeStatus (run describeStatus es) e := by
  rw [run, List.foldl_append]
  rfl

/-! ## What a channel that is done with has relayed -/

/-- A channel with nothing waiting has relayed everything that reached it. -/
theorem Books.relayed_of_empty (h : Books s) {ch : Channel} (hempty : s.waiting ch = [])
    {reached : PerChannel (List Message)} (hr : s.reachedAtExit = some reached) :
    (reached.get ch).map (relayed ch) <+: s.relayedOn ch := by
  obtain ⟨done, hdone, hrelayed⟩ := h.read ch
  rw [hempty, List.append_nil] at hdone
  rw [hrelayed, hdone]
  exact (h.before reached hr ch).map _

/-- **iopub, when its queue is empty**: up to date exactly when nothing from before the exit
is still on its way to the queue. -/
theorem Books.iopub_iff (h : Books s) (hqueue : s.messageQueue = [])
    {reached : PerChannel (List Message)} (hr : s.reachedAtExit = some reached) :
    (reached.get .iopub).map (relayed .iopub) <+: s.relayedOn .iopub ↔ s.unpushed = [] := by
  obtain ⟨done, hdone, hrelayed⟩ := h.read .iopub
  have hwaiting : s.waiting .iopub = s.hand.toList ++ s.sockets.iopub := by
    simp [State.waiting, hqueue]
  have hbefore := h.before reached hr .iopub
  rw [hwaiting] at hdone
  have hbacklog := Backlog.filterMap_prefix_iff (some ∘ relayed .iopub) (hdone.symm ▸ hbefore)
  have hunpushed : s.unpushed =
      backlog (s.hand.toList ++ s.sockets.iopub) (reached.get .iopub) (s.reached.get .iopub) := by
    rw [State.unpushed, hr]
    rfl
  rw [List.filterMap_eq_map, List.map_eq_nil_iff, hdone] at hbacklog
  rw [hrelayed, hunpushed]
  exact hbacklog

/-- A step that neither emits nor lets the poll thread finish a channel. -/
theorem Complete.of_eq (h : Complete s) (hpc : s'.pc.finished ⊆ s.pc.finished)
    (hemitted : s'.emitted = s.emitted) (hexit : s'.reachedAtExit = s.reachedAtExit) : Complete s' := by
  intro reached hr ch hch
  rw [State.beforeExit, hemitted]
  exact h reached (hexit ▸ hr) ch (hpc hch)

/-- Relaying a message takes nothing back. -/
theorem Complete.emit (h : Complete s) (hbooks : Books s) (hbooks' : Books s') (hleft : s.pc ≠ .left)
    (hpc : s'.pc = s.pc) {ch : Channel} {msg : Message}
    (hemitted : s'.emitted = (emit s ch msg).emitted) (hexit : s'.reachedAtExit = s.reachedAtExit) :
    Complete s' := by
  intro reached hr ch' hch'
  have hbefore := h reached (hexit ▸ hr) ch' (hpc ▸ hch')
  rw [hbooks.beforeExit_eq hleft] at hbefore
  rw [hbooks'.beforeExit_eq (hpc ▸ hleft), State.relayedOn, hemitted]
  refine hbefore.trans ?_
  rw [Relay.emit, List.filterMap_append]
  exact List.prefix_append _ _

/-- The poll thread goes on to `pc`, having finished the channels `finished` and no others. -/
theorem Complete.setPc_iff {pc : Pc} (hleft' : pc ≠ .left)
    (hbooks' : Books { s with pc }) :
    Complete { s with pc } ↔ ∀ reached, s.reachedAtExit = some reached → ∀ ch ∈ pc.finished,
      (reached.get ch).map (relayed ch) <+: s.relayedOn ch := by
  unfold Complete
  constructor
  · intro h reached hr ch hch
    have := h reached hr ch hch
    rwa [hbooks'.beforeExit_eq hleft'] at this
  · intro h reached hr ch hch
    rw [hbooks'.beforeExit_eq hleft']
    exact h reached hr ch hch

theorem Complete.relayedOn (h : Complete s) (hbooks : Books s) (hleft : s.pc ≠ .left)
    {reached : PerChannel (List Message)} (hr : s.reachedAtExit = some reached) {ch : Channel}
    (hch : ch ∈ s.pc.finished) : (reached.get ch).map (relayed ch) <+: s.relayedOn ch := by
  have := h reached hr ch hch
  rwa [hbooks.beforeExit_eq hleft] at this

/-- A reply socket is drained: what the thread is done with stays complete. -/
theorem Complete.drainSocket (h : Complete s) (hbooks : Books s) (hleft : s.pc ≠ .left) {ch : Channel}
    (hch : ch ≠ .iopub) {next : Pc} (hnext : next.exited = s.pc.exited) (hleft' : next ≠ .left)
    (hfinished : next.finished ⊆ s.pc.finished ++ [ch]) : Complete (drainSocket s ch next) := by
  have hbooks' := hbooks.drainSocket hleft hch hnext
  unfold Relay.drainSocket at hbooks' ⊢
  split
  · next msg rest hsocket =>
    rw [hsocket] at hbooks'
    exact h.emit hbooks hbooks' hleft rfl rfl rfl
  · next hsocket =>
    rw [hsocket] at hbooks'
    refine (Complete.setPc_iff hleft' hbooks').mpr fun reached hr ch' hch' => ?_
    rcases List.mem_append.mp (hfinished hch') with hold | hnew
    · exact h.relayedOn hbooks hleft hr hold
    · obtain rfl := List.mem_singleton.mp hnew
      refine hbooks.relayed_of_empty ?_ hr
      cases ch' with
      | iopub => exact absurd rfl hch
      | _ => exact hsocket

/-- **One step.** What the poll thread is done with stays complete exactly when the step does
not end the last `drainIopub` too early. -/
theorem Books.step_complete_iff (h : Books s) (hs : Complete s) (e : Event) :
    Complete (Relay.step describeStatus s e) ↔ CaughtUp s e := by
  have hother : e ≠ .poll → CaughtUp s e := fun hne heq => absurd heq hne
  cases e with
  | reach ch msg => exact iff_of_true (hs.of_eq (List.Subset.refl _) rfl rfl) (hother (by simp))
  | exit | expectExit | stopPolling =>
    exact iff_of_true (hs.of_eq (List.Subset.refl _) rfl rfl) (hother (by simp))
  | receive =>
    refine iff_of_true ?_ (hother (by simp))
    unfold Relay.step
    dsimp only
    split <;> exact hs.of_eq (List.Subset.refl _) rfl rfl
  | push =>
    refine iff_of_true ?_ (hother (by simp))
    unfold Relay.step
    dsimp only
    split <;> exact hs.of_eq (List.Subset.refl _) rfl rfl
  | poll =>
    have hquiet : s.pc ≠ .drainIopub true → CaughtUp s .poll := fun hne _ heq => absurd heq hne
    change Complete (Relay.poll describeStatus s) ↔ _
    unfold Relay.poll
    cases hpc : s.pc with
    | checkPolling =>
      have hnone : s.reachedAtExit = none := by
        by_contra hne
        rcases h.found hne with he | hl
        · simp [hpc, Pc.exited] at he
        · simp [hpc] at hl
      refine iff_of_true ?_ (hquiet (by simp [hpc]))
      dsimp only
      split <;> exact fun reached hr => nomatch hnone.symm.trans hr
    | sampleExit =>
      refine iff_of_true ?_ (hquiet (by simp [hpc]))
      dsimp only
      split <;> exact fun _ _ _ hch => nomatch hch
    | drainIopub exited =>
      dsimp only
      split
      · next msg rest hqueue =>
        rw [← hpc]
        exact iff_of_true (hs.emit h (h.popIopub (by simp [hpc]) hqueue) (by simp [hpc]) rfl rfl rfl)
          fun _ _ hnil => nomatch hqueue.symm.trans hnil
      · next hqueue =>
        have hnext : Books { s with pc := .drainShell exited } :=
          h.setPc (by simp [hpc]) (by simp [hpc, Pc.exited])
        rw [Complete.setPc_iff (by simp) hnext]
        cases exited with
        | false => exact iff_of_true (fun _ _ _ hch => nomatch hch) (hquiet (by simp [hpc]))
        | true =>
          obtain ⟨reached, hr⟩ := Option.ne_none_iff_exists'.mp (h.exited (by simp [hpc, Pc.exited]))
          have hiopub := h.iopub_iff hqueue hr
          constructor
          · intro hall _ _ _
            exact hiopub.mp (hall reached hr .iopub List.mem_cons_self)
          · intro hcaught reached' hr' ch hch
            obtain rfl := List.mem_singleton.mp hch
            rw [← Option.some.inj (hr.symm.trans hr')]
            exact hiopub.mpr (hcaught rfl hpc hqueue)
    | drainShell exited =>
      refine iff_of_true (hs.drainSocket h (by simp [hpc]) (by simp) (by simp [hpc, Pc.exited]) (by simp) ?_)
        (hquiet (by simp [hpc]))
      cases exited <;> simp [hpc, Pc.finished]
    | drainControl exited =>
      refine iff_of_true (hs.drainSocket h (by simp [hpc]) (by simp) (by simp [hpc, Pc.exited]) (by simp) ?_)
        (hquiet (by simp [hpc]))
      cases exited <;> simp [hpc, Pc.finished]
    | drainStdin exited =>
      refine iff_of_true (hs.drainSocket h (by simp [hpc]) (by simp) (by simp [hpc, Pc.exited]) (by simp) ?_)
        (hquiet (by simp [hpc]))
      cases exited <;> simp [hpc, Pc.finished]
    | checkExit exited =>
      refine iff_of_true ?_ (hquiet (by simp [hpc]))
      dsimp only
      split
      · next hexited =>
        have hsub : Pc.finished .left ⊆ s.pc.finished := by simp [hpc, hexited, Pc.finished]
        split
        · exact hs.of_eq hsub rfl rfl
        · exact hs.of_eq hsub rfl rfl
      · exact fun _ _ _ hch => nomatch hch
    | report =>
      refine iff_of_true (fun reached hr ch hch => ?_) (hquiet (by simp [hpc]))
      have hleft : s.pc ≠ .left := by simp [hpc]
      have hfinished : ch ∈ s.pc.finished := by
        rw [hpc]
        exact hch
      have hdone := hs.relayedOn h hleft hr hfinished
      -- all that was emitted so far are messages
      have hall := h.messages hleft
      rw [State.beforeExit, List.takeWhile_append_of_pos hall]
      simpa [Frame.isMessage, State.relayedOn] using hdone
    | waitForActivity =>
      exact iff_of_true (fun _ _ _ hch => nomatch hch) (hquiet (by simp [hpc]))
    | left => exact iff_of_true hs (hquiet (by simp [hpc]))

/-! ## The headline -/

theorem Books.relays_iff_complete (h : Books s) : Relays s ↔ Complete s := by
  refine ⟨Relays.complete, fun hcomplete => ⟨fun ch => ?_, h.quiet, hcomplete⟩⟩
  obtain ⟨done, hdone, hrelayed⟩ := h.read ch
  rw [hrelayed, ← List.map_append, hdone]

/-- **Final messages come before the exit.** Whatever reaches the sockets and whenever the
process ends, every state of the run relays as it should exactly when each time the last
`drainIopub` ends, no iopub message from before the exit was found is still on its way to
the queue. -/
theorem relays_iff (describeStatus : String) (es : List Event) :
    (∀ pre, pre <+: es → Relays (run describeStatus pre)) ↔
      ∀ pre e, pre ++ [e] <+: es → CaughtUp (run describeStatus pre) e := by
  constructor
  · intro hall pre e hpre
    have hs := (hall pre ((List.prefix_append _ _).trans hpre)).complete
    have hs' := (hall _ hpre).complete
    rw [run_snoc] at hs'
    exact ((books_run describeStatus pre).step_complete_iff hs e).mp hs'
  · intro hcaught pre
    induction pre using List.reverseRecOn with
    | nil => exact fun _ => books_init.relays_iff_complete.mpr fun _ hr => nomatch hr
    | append_singleton pre e ih =>
      intro hpre
      have hs := (ih ((List.prefix_append _ _).trans hpre)).complete
      refine (books_run describeStatus _).relays_iff_complete.mpr ?_
      rw [run_snoc]
      exact ((books_run describeStatus pre).step_complete_iff hs e).mpr (hcaught pre e hpre)

/-- The kernel prints and exits; the iopub thread has the print in its hand while the poll
thread drains for the last time. -/
def printInHand : List Event :=
  .reach .iopub { topic := "stream", msgType := "stream" } :: .exit :: .receive ::
    List.replicate 8 .poll

/-- **The last output can be lost**: it had reached the SUB socket before the exit was found,
and is not relayed before, or after, the exit is reported. -/
theorem last_output_lost :
    ¬ (∀ pre, pre <+: printInHand → Relays (run "exit code 1" pre)) ∧
    (run "exit code 1" printInHand).emitted =
      [.kernelExit "kernel process exited unexpectedly (exit code 1)"] := by
  refine ⟨fun h => ?_, by decide⟩
  have hcomplete := (h _ (List.prefix_refl _)).complete
    ⟨[{ topic := "stream", msgType := "stream" }], [], [], []⟩ (by decide) .iopub (by decide)
  exact absurd hcomplete (by decide)

end Jovian.Relay
