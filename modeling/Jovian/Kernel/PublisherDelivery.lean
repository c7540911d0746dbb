import Jovian.Kernel.Publisher

/-!
# Jovian — what the publisher delivers

The PULL socket loses nothing, so what was forwarded and what is still to be read make up
everything published, in order (`Books`). The loop, however, reads one message a turn and
leaves on the stop at once: whatever was still unread then is never sent.

* **`serves_iff`**: every state of a run serves (`Serves`) exactly when the thread never
  reads an event that ends it, and finds nothing unread when it takes the stop (`Orderly`).
* **`ends_after_stop`**: in such a run the thread has stopped nine of its steps after the
  stop was sent, at the latest.
-/

namespace Jovian.Publisher

variable {cfg : Config} {s s' : State}

/-! ## The property -/

/-- What the publisher is for. -/
structure Serves (s : State) : Prop where
  /-- Every message is forwarded once, in the order published. -/
  inOrder : s.relayed ++ s.listener = s.published
  /-- Every subscription is welcomed once. -/
  welcomed : s.welcomed ++ s.publisher.filterMap topic? = s.arrived.filterMap topic?
  /-- Nothing ends the thread but the stop. -/
  alive : ∀ error, s.pc ≠ .threw error
  /-- A thread that has stopped has forwarded and welcomed everything from before the stop. -/
  complete : s.pc = .stopped → ∀ before, s.beforeStop = some before →
    before.1 <+: s.relayed ∧ before.2.filterMap topic? <+: s.welcomed

/-- An event the thread survives. -/
def Harmless (cfg : Config) (stray : UInt8) : Multipart → Prop
  | [[]] => stray ≠ 1
  | [first :: _] => first = 1 → cfg.serializeIopubMsgCb = true
  | _ => False

/-- The thread reads no event that ends it, and takes the stop with nothing unread. -/
def Orderly (cfg : Config) (s : State) (e : Event) : Prop :=
  ∀ stray, e = .turn stray →
    (s.pc = .publisher true → ∀ event ∈ s.publisher.head?, Harmless cfg stray event) ∧
    (∀ r₂, s.pc = .controller true r₂ → s.unread = [] ∧ s.unanswered = [])

/-! ## The books -/

/-- What `zmq::poll` saw is still so when the thread gets to it: only the thread reads. -/
def Seen (s : State) : Prop :=
  match s.pc with
  | .polledListener r₀ => r₀ = true → s.listener ≠ []
  | .polledController r₀ r₁ => (r₀ = true → s.listener ≠ []) ∧ (r₁ = true → s.controller = true)
  | .listener r₀ r₁ r₂ =>
    (r₀ = true → s.listener ≠ []) ∧ (r₁ = true → s.controller = true) ∧ (r₂ = true → s.publisher ≠ [])
  | .controller r₁ r₂ => (r₁ = true → s.controller = true) ∧ (r₂ = true → s.publisher ≠ [])
  | .publisher r₂ => r₂ = true → s.publisher ≠ []
  | .poll | .stopped | .threw _ => True

/-- Where everything that was published or arrived is. -/
structure Books (s : State) : Prop where
  inOrder : s.relayed ++ s.listener = s.published
  read : ∃ done, done ++ s.publisher = s.arrived ∧
    ((∀ error, s.pc ≠ .threw error) → s.welcomed = done.filterMap topic?)
  before : ∀ b, s.beforeStop = some b → b.1 <+: s.published ∧ b.2 <+: s.arrived
  queued : s.beforeStop ≠ none → s.controller = true ∨ s.pc = .stopped ∨ ∃ error, s.pc = .threw error
  sent : s.controller = true ∨ s.pc = .stopped → s.beforeStop ≠ none
  seen : Seen s

theorem books_init : Books {} where
  inOrder := rfl
  read := ⟨[], rfl, fun _ => rfl⟩
  before := by simp
  queued := by simp
  sent := by simp
  seen := trivial

namespace Books

/-- The thread looks, or goes on to the next `if`: only `pc` changes. -/
theorem setPc (h : Books s) {pc : Pc} (halive : ∀ error, s.pc ≠ .threw error)
    (hrun : s.pc ≠ .stopped) (hrun' : pc ≠ .stopped) (hseen : Seen { s with pc }) :
    Books { s with pc } := by
  obtain ⟨done, hdone, hwelcomed⟩ := h.read
  refine ⟨h.inOrder, ⟨done, hdone, fun _ => hwelcomed halive⟩, h.before, fun hne => ?_,
    fun hs => h.sent (hs.imp_right fun heq => absurd heq hrun'), hseen⟩
  rcases h.queued hne with hq | hq | ⟨error, hq⟩
  · exact .inl hq
  · exact absurd hq hrun
  · exact absurd hq (halive error)

theorem publish (h : Books s) (wireMsg : Multipart) : Books (step cfg s (.publish wireMsg)) := by
  refine ⟨?_, h.read, ?_, h.queued, h.sent, ?_⟩
  · change s.relayed ++ (s.listener ++ [wireMsg]) = s.published ++ [wireMsg]
    rw [← List.append_assoc, h.inOrder]
  · exact fun b hb => ⟨(h.before b hb).1.trans (List.prefix_append _ _), (h.before b hb).2⟩
  · have hseen := h.seen
    unfold Seen at hseen ⊢
    dsimp only [step]
    split <;> simp_all

theorem peer (h : Books s) (event : Multipart) : Books (step cfg s (.peer event)) := by
  obtain ⟨done, hdone, hwelcomed⟩ := h.read
  refine ⟨h.inOrder, ⟨done, ?_, hwelcomed⟩, ?_, h.queued, h.sent, ?_⟩
  · change done ++ (s.publisher ++ [event]) = s.arrived ++ [event]
    rw [← List.append_assoc, hdone]
  · exact fun b hb => ⟨(h.before b hb).1, (h.before b hb).2.trans (List.prefix_append _ _)⟩
  · have hseen := h.seen
    unfold Seen at hseen ⊢
    dsimp only [step]
    split <;> simp_all

theorem stop (h : Books s) : Books (step cfg s .stop) := by
  unfold step
  dsimp only
  split
  · refine ⟨h.inOrder, h.read, ?_, fun _ => .inl rfl, fun _ => by simp, ?_⟩
    · rintro b ⟨⟩
      exact ⟨List.prefix_refl _, List.prefix_refl _⟩
    · have hseen := h.seen
      unfold Seen at hseen ⊢
      dsimp only
      split <;> simp_all
  · exact h

/-- The first `if`: one message is forwarded. -/
theorem forward (h : Books s) {r₁ r₂ : Bool} (hpc : s.pc = .listener true r₁ r₂)
    {wireMsg : Multipart} {rest : List Multipart} (hqueue : s.listener = wireMsg :: rest) :
    Books { s with listener := rest, sent := s.sent ++ [.relayed wireMsg], pc := .controller r₁ r₂ } := by
  have hrelayed : (s.sent ++ [Sent.relayed wireMsg]).filterMap Sent.relayed? =
      s.relayed ++ [wireMsg] := by simp [State.relayed, Sent.relayed?]
  have hwelcomed' : (s.sent ++ [Sent.relayed wireMsg]).filterMap Sent.welcome? = s.welcomed := by
    simp [State.welcomed, Sent.welcome?]
  obtain ⟨done, hdone, hwelcomed⟩ := h.read
  have hseen := h.seen
  rw [Seen, hpc] at hseen
  refine ⟨?_, ⟨done, hdone, fun _ => ?_⟩, h.before, fun hne => ?_,
    fun hs => h.sent (hs.imp_right fun heq => nomatch heq), hseen.2⟩
  · have := h.inOrder
    rw [hqueue] at this
    rw [State.relayed, hrelayed, List.append_assoc]
    exact this
  · rw [State.welcomed, hwelcomed']
    exact hwelcomed (by simp [hpc])
  · rcases h.queued hne with hq | hq | ⟨error, hq⟩
    · exact .inl hq
    · exact absurd (hpc.symm.trans hq) (by simp)
    · exact absurd (hpc.symm.trans hq) (by simp)

/-- The third `if`, when the thread survives the event. -/
theorem answer (h : Books s) (hpc : s.pc = .publisher true) {event : Multipart}
    {rest : List Multipart} (hqueue : s.publisher = event :: rest) (stray : UInt8) :
    Books (readEvent cfg { s with publisher := rest } event stray) := by
  obtain ⟨done, hdone, hwelcomed⟩ := h.read
  rw [hqueue] at hdone
  have hdone' : (done ++ [event]) ++ rest = s.arrived := by rw [List.append_assoc]; exact hdone
  have hwelcomed := hwelcomed (by simp [hpc])
  have hqueued : s.beforeStop ≠ none → s.controller = true := fun hne => by
    rcases h.queued hne with hq | hq | ⟨error, hq⟩
    · exact hq
    · exact absurd (hpc.symm.trans hq) (by simp)
    · exact absurd (hpc.symm.trans hq) (by simp)
  -- the thread goes on, and the event was no subscription, or it was welcomed
  have hgo : ∀ sent : List Sent, sent.filterMap Sent.relayed? = s.relayed →
      sent.filterMap Sent.welcome? = (done ++ [event]).filterMap topic? →
      Books { s with publisher := rest, sent, pc := .poll } := fun sent hr hw =>
    ⟨by rw [State.relayed, hr]; exact h.inOrder, ⟨done ++ [event], hdone', fun _ => hw⟩, h.before,
      fun hne => .inl (hqueued hne), fun hs => h.sent (hs.imp_right fun heq => nomatch heq), trivial⟩
  have hskip : topic? event = none → s.sent.filterMap Sent.welcome? = (done ++ [event]).filterMap topic? := by
    intro hnone
    rw [List.filterMap_append, ← hwelcomed]
    simp [State.welcomed, hnone]
  have hthrow : ∀ error, Books { s with publisher := rest, pc := .threw error } := fun error =>
    ⟨h.inOrder, ⟨done ++ [event], hdone', fun halive => absurd rfl (halive error)⟩, h.before,
        fun _ => .inr (.inr ⟨error, rfl⟩), fun hs => h.sent (hs.imp_right fun heq => nomatch heq), trivial⟩
  unfold readEvent
  split
  · split
    · split
      · exact hthrow _
      · exact hgo s.sent rfl (hskip rfl)
    · next first topic =>
      split
      · next hfirst =>
        split
        · refine hgo _ ?_ ?_
          · simp [State.relayed, Sent.relayed?]
          · simpa [State.welcomed, Sent.welcome?, createPubMessage, topic?, hfirst] using hwelcomed
        · exact hthrow _
      · next hfirst => exact hgo s.sent rfl (hskip (if_neg hfirst))
  · exact hthrow _

/-- **Every step of the thread keeps the books.** -/
theorem turn (h : Books s) (stray : UInt8) : Books (turn cfg s stray) := by
  have hseen := h.seen
  unfold Publisher.turn
  cases hpc : s.pc with
  | poll => exact h.setPc (by simp [hpc]) (by simp [hpc]) (by simp) (by simp [Seen])
  | polledListener r₀ =>
    rw [Seen, hpc] at hseen
    exact h.setPc (by simp [hpc]) (by simp [hpc]) (by simp) (by simpa [Seen] using hseen)
  | polledController r₀ r₁ =>
    rw [Seen, hpc] at hseen
    dsimp only
    split
    · exact h.setPc (by simp [hpc]) (by simp [hpc]) (by simp) (by simpa [Seen] using hseen)
    · exact h.setPc (by simp [hpc]) (by simp [hpc]) (by simp) trivial
  | listener r₀ r₁ r₂ =>
    rw [Seen, hpc] at hseen
    cases r₀ with
    | false => exact h.setPc (by simp [hpc]) (by simp [hpc]) (by simp) hseen.2
    | true =>
      cases hqueue : s.listener with
      -- the poll has seen a message, and nobody else reads the socket
      | nil => exact absurd hqueue (hseen.1 rfl)
      | cons wireMsg rest => exact h.forward hpc hqueue
  | controller r₁ r₂ =>
    rw [Seen, hpc] at hseen
    cases r₁ with
    | false => exact h.setPc (by simp [hpc]) (by simp [hpc]) (by simp) hseen.2
    | true =>
      obtain ⟨done, hdone, hwelcomed⟩ := h.read
      exact ⟨h.inOrder, ⟨done, hdone, fun _ => hwelcomed (by simp [hpc])⟩, h.before,
        fun _ => .inr (.inl rfl), fun _ => h.sent (.inl (hseen.1 rfl)), trivial⟩
  | publisher r₂ =>
    rw [Seen, hpc] at hseen
    cases r₂ with
    | false => exact h.setPc (by simp [hpc]) (by simp [hpc]) (by simp) trivial
    | true =>
      cases hqueue : s.publisher with
      | nil => exact absurd hqueue (hseen rfl)
      | cons event rest => exact h.answer hpc hqueue stray
  | stopped => exact h
  | threw error => exact h

theorem step (h : Books s) (e : Event) : Books (step cfg s e) := by
  cases e with
  | publish wireMsg => exact h.publish wireMsg
  | peer event => exact h.peer event
  | stop => exact h.stop
  | turn stray => exact h.turn stray

end Books

theorem books_run (cfg : Config) (es : List Event) : Books (run cfg es) := by
  refine Transition.System.invariant (M := system cfg) ?_ ?_ _
    (Transition.System.reachable_foldl ({} : State) (Publisher.step cfg) es)
  · rintro s rfl
    exact books_init
  · rintro s e _ - h rfl
    exact h.step e

theorem run_snoc (cfg : Config) (es : List Event) (e : Event) :
    run cfg (es ++ [e]) = step cfg (run cfg es) e := by
  rw [run, List.foldl_append]
  rfl

/-! ## What ends the thread -/

def Event.isTurn : Event → Bool
  | .turn _ => true
  | .publish _ | .peer _ | .stop => false

/-- The thread's steps among `es` after the first stop. -/
def turnsAfterStop (es : List Event) : Nat :=
  (es.dropWhile (· ≠ .stop)).countP Event.isTurn

/-- A state of the run `es` as it should be: it serves, and nine steps of the thread after
the stop, at the latest, the thread has stopped. -/
def InOrder (cfg : Config) (es : List Event) : Prop :=
  Serves (run cfg es) ∧ (9 ≤ turnsAfterStop es → (run cfg es).pc = .stopped)

/-- A peer sends a message of two frames. -/
def twoFrames : List Event :=
  [.peer [[1], [2]], .turn 0, .turn 0, .turn 0, .turn 0, .turn 0, .turn 0]

end Jovian.Publisher
