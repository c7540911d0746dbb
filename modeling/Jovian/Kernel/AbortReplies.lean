import Jovian.Kernel.ExecuteReply
import Mathlib.Data.List.Forall2

/-!
# AbortReplies — what is answered to the requests behind a failed execution

`abortQueue` aborts the requests that were set aside, and then what is on the shell socket, until it
finds none; more may come meanwhile. `abortRequest` makes the name of a reply from the type of the
request, which it takes to end in `_request`: of a comm message it makes `comm_reply`, and where
there is no underscore it throws. What it throws for a request that was set aside ends the abort.

* **`abortQueue_iff`** — when everything that waits is aborted and answered as it should be.
-/

namespace Jovian.Kernel

open Throws (attempt catching final thrown ending run_eq bind_ok bind_error catching_ok
  catching_error)

variable {w : World}

/-! ## While requests come -/

/-- A message from the socket, `none` where it cannot be read: what it throws is passed by. -/
def abortRead (w : World) : Option Message → KernelM Unit
  | none => pure ()
  | some m => catchStd (abortRequest w m) fun _ => pure ()

/-- The socket is empty, or it goes on behind its first message. -/
def abortFound (w : World) (goOn : KernelM Unit) : List (Option Message) → KernelM Unit
  | [] => pure ()
  | m :: rest => do
    modify fun s => { s with shell := rest }
    abortRead w m
    goOn

/-- `abortQueue` on the shell socket; `come` says what comes before each look at it. -/
def abortSocket (w : World) : List (List (Option Message)) → KernelM Unit
  | [] => do
    let s ← get
    abortShell w s.shell
  | come :: later => do
    modify fun s => { s with shell := s.shell ++ come }
    let s ← get
    abortFound w (abortSocket w later) s.shell

def abortQueueWhile (w : World) (come : List (List (Option Message))) : KernelM Unit := do
  let s ← get
  abortDeferred w s.deferredShell
  abortSocket w come

/-- What comes before the socket is found empty, if so many wait. -/
def heard {α : Type} : Nat → List (List α) → List α
  | _, [] => []
  | waiting, come :: later =>
    if waiting + come.length = 0 then [] else come ++ heard (waiting + come.length - 1) later

/-! ## The property -/

/-- `header().value("msg_type", "")`, where it does not throw. -/
def typeOf (m : Message) : Option String :=
  (m.header.valueString "msg_type" "").toOption

/-- The messages that have no reply. -/
def commTypes : List String := ["comm_open", "comm_msg", "comm_close"]

/-- What a message is answered. -/
structure Answers (m : Message) (replies : List Effect) : Prop where
  request : ∀ stem, typeOf m = some (stem ++ "_request") →
    replies = [.aborted (stem ++ "_reply") m.header]
  comm : ∀ t ∈ commTypes, typeOf m = some t → replies = []
  own : ∀ e ∈ replies, ∃ t, e = .aborted t m.header

/-- A message that cannot be read is answered nothing. -/
def Answered : Option Message → List Effect → Prop
  | none, replies => replies = []
  | some m, replies => Answers m replies

/-- Everything that waits, or comes meanwhile, in the order it came. -/
def waiting (come : List (List (Option Message))) (s : State) : List (Option Message) :=
  s.deferredShell.map some ++ (s.shell ++ heard s.shell.length come)

/-- It returns, and every message that waits is consumed, and answered once. -/
def AbortsAll (w : World) (come : List (List (Option Message))) (s : State) : Prop :=
  ∃ s' replies, abortQueueWhile w come s = .ok () s' ∧ s'.deferredShell = [] ∧ s'.shell = [] ∧
    s'.trace = s.trace ++ List.flatten replies ∧ List.Forall₂ Answered (waiting come s) replies

/-- What was set aside has a type with an underscore; none is a comm message; and what is to be
answered can be. -/
structure Abortable (w : World) (come : List (List (Option Message))) (s : State) : Prop where
  deferred : ∀ m ∈ s.deferredShell, ∃ t, typeOf m = some t ∧ '_' ∈ t.toList
  comm : w.sends abortedContent = none →
    ∀ m, some m ∈ waiting come s → ∀ t ∈ commTypes, typeOf m ≠ some t
  sends : w.sends abortedContent = none ∨
    s.deferredShell = [] ∧ ∀ m, some m ∈ waiting come s → ∀ stem, typeOf m ≠ some (stem ++ "_request")

/-! ## One request -/

/-- What aborting a message sends. -/
def aborted (w : World) (m : Message) : List Effect :=
  match (typeOf m).bind replyType with
  | some t => if w.sends abortedContent = none then [.aborted t m.header] else []
  | none => []

theorem abortRequest_run (m : Message) (s : State) : abortRequest w m s =
    ending (abortError w m) { s with trace := s.trace ++ aborted w m } := by
  unfold abortRequest abortError aborted typeOf
  cases m.header.valueString "msg_type" "" with
  | error e =>
    show (throw (.json e) : KernelM Unit) s = ending (some (.json e)) { s with trace := s.trace ++ [] }
    rw [List.append_nil]
    rfl
  | ok msgType =>
    simp only [lift, pure_bind, Except.toOption, Option.bind_some]
    cases replyType msgType with
    | none =>
      rw [List.append_nil]
      rfl
    | some reply =>
      cases w.sends abortedContent with
      | none => rfl
      | some what =>
        simp only [reduceCtorEq, if_false, List.append_nil]
        rfl

def abortedRead (w : World) : Option Message → List Effect
  | none => []
  | some m => aborted w m

theorem abortRead_run (m : Option Message) (s : State) : abortRead w m s =
    .ok () { s with trace := s.trace ++ abortedRead w m } := by
  cases m with
  | none =>
    rw [abortedRead, List.append_nil]
    rfl
  | some m =>
    have hrun := abortRequest_run (w := w) m s
    -- what it throws is a std::exception, which the loop catches
    have hdefined : ∀ e, abortError w m = some e → e ≠ .undefined := by
      rintro e he rfl
      exact (tame_abortRequest w m).throws s .undefined _ (by rw [hrun, he]; rfl) rfl
    rw [abortRead, catchStd]
    cases herror : abortError w m with
    | none =>
      rw [herror] at hrun
      exact catching_ok hrun
    | some e =>
      rw [herror] at hrun
      rw [catching_error hrun]
      cases e with
      | undefined => exact absurd rfl (hdefined _ herror)
      | json | runtime | outOfRange => rfl

/-! ## The two loops -/

theorem abortShell_run (queue : List (Option Message)) (s : State) (h : s.shell = queue) :
    abortShell w queue s =
      .ok () { s with shell := [], trace := s.trace ++ queue.flatMap (abortedRead w) } := by
  induction queue generalizing s with
  | nil =>
    rw [List.flatMap_nil, List.append_nil, abortShell]
    show EStateM.Result.ok () s = _
    rw [← h]
  | cons m queue ih =>
    have hstep : abortShell w (m :: queue) s =
        (do abortRead w m; abortShell w queue) { s with shell := queue } := by
      cases m <;> rfl
    rw [hstep, bind_ok (abortRead_run m _), ih _ rfl, List.flatMap_cons, List.append_assoc]

theorem abortSocket_run (come : List (List (Option Message))) (s : State) :
    abortSocket w come s = .ok () { s with
      shell := []
      trace := s.trace ++ (s.shell ++ heard s.shell.length come).flatMap (abortedRead w) } := by
  induction come generalizing s with
  | nil =>
    rw [heard, List.append_nil]
    exact abortShell_run s.shell s rfl
  | cons first later ih =>
    have hstep : abortSocket w (first :: later) s =
        abortFound w (abortSocket w later) (s.shell ++ first)
          { s with shell := s.shell ++ first } := rfl
    rw [hstep]
    cases hshell : s.shell ++ first with
    | nil =>
      -- the socket is found empty: what comes later is not heard
      obtain ⟨hnone, rfl⟩ := List.append_eq_nil_iff.mp hshell
      have hheard : s.shell ++ heard s.shell.length ([] :: later) = [] := by
        rw [hnone]
        rfl
      rw [hheard, List.flatMap_nil, List.append_nil]
      rfl
    | cons m rest =>
      have hnext : abortFound w (abortSocket w later) (m :: rest) { s with shell := m :: rest } =
          (do abortRead w m; abortSocket w later) { s with shell := rest } := rfl
      rw [hnext, bind_ok (abortRead_run m _), ih]
      have hlength : s.shell.length + first.length = rest.length + 1 := by
        rw [← List.length_append, hshell, List.length_cons]
      rw [heard, if_neg (by omega), hlength, ← List.append_assoc, hshell]
      simp [List.append_assoc]

/-- What was set aside is aborted to its end where nothing throws. -/
theorem abortDeferred_ok (deferred : List Message) (s : State) (h : s.deferredShell = deferred)
    (hnone : ∀ m ∈ deferred, abortError w m = none) : abortDeferred w deferred s =
      .ok () { s with deferredShell := [], trace := s.trace ++ deferred.flatMap (aborted w) } := by
  induction deferred generalizing s with
  | nil =>
    rw [List.flatMap_nil, List.append_nil, abortDeferred]
    show EStateM.Result.ok () s = _
    rw [← h]
  | cons m rest ih =>
    have hstep : abortDeferred w (m :: rest) s =
        (do abortRequest w m; abortDeferred w rest) { s with deferredShell := rest } := rfl
    have hrun := abortRequest_run (w := w) m { s with deferredShell := rest }
    rw [hnone m List.mem_cons_self] at hrun
    rw [hstep, bind_ok hrun, ih _ rfl fun m hm => hnone m (List.mem_cons_of_mem _ hm),
      List.flatMap_cons, List.append_assoc]

theorem abortQueueWhile_ok (come : List (List (Option Message))) (s : State)
    (hnone : ∀ m ∈ s.deferredShell, abortError w m = none) : abortQueueWhile w come s = .ok ()
      { s with
        deferredShell := []
        shell := []
        trace := s.trace ++ (waiting come s).flatMap (abortedRead w) } := by
  have hstep : abortQueueWhile w come s =
      (do abortDeferred w s.deferredShell; abortSocket w come) s := rfl
  have hsplit : (waiting come s).flatMap (abortedRead w) = s.deferredShell.flatMap (aborted w) ++
      (s.shell ++ heard s.shell.length come).flatMap (abortedRead w) := by
    rw [waiting, List.flatMap_append, List.flatMap_map]
    rfl
  rw [hstep, bind_ok (abortDeferred_ok _ s rfl hnone), abortSocket_run, hsplit, ← List.append_assoc]

theorem abortDeferred_error (s : State) (h : ¬ ∀ m ∈ s.deferredShell, abortError w m = none) :
    ∃ e s', abortDeferred w s.deferredShell s = .error e s' := by
  obtain ⟨s', hs', -⟩ := abortDeferred_run (w := w) s.deferredShell s rfl
  obtain ⟨e, he⟩ : ∃ e, s.deferredShell.findSome? (abortError w) = some e := by
    rwa [← Option.ne_none_iff_exists', ne_eq, List.findSome?_eq_none_iff]
  rw [he] at hs'
  exact ⟨e, s', hs'⟩

theorem abortQueueWhile_ok_iff (come : List (List (Option Message))) (s : State) :
    (∃ s', abortQueueWhile w come s = .ok () s') ↔ ∀ m ∈ s.deferredShell, abortError w m = none := by
  constructor
  · rintro ⟨s', hs'⟩
    by_contra hthrows
    obtain ⟨e, s'', herror⟩ := abortDeferred_error s hthrows
    have hstep : abortQueueWhile w come s =
        (do abortDeferred w s.deferredShell; abortSocket w come) s := rfl
    rw [hstep, bind_error herror] at hs'
    cases hs'
  · exact fun hnone => ⟨_, abortQueueWhile_ok come s hnone⟩

/-- `abortQueue`, if nothing comes meanwhile. -/
theorem abortQueueWhile_nil (s : State) : abortQueueWhile w [] s = abortQueue w s := by
  have hstep : abortQueueWhile w [] s =
      (do abortDeferred w s.deferredShell; abortSocket w []) s := rfl
  have hstep' : abortQueue w s =
      (do abortDeferred w s.deferredShell; abortShell w s.shell) s := rfl
  by_cases hnone : ∀ m ∈ s.deferredShell, abortError w m = none
  · rw [hstep, hstep', bind_ok (abortDeferred_ok _ s rfl hnone), bind_ok (abortDeferred_ok _ s rfl hnone)]
    rfl
  · obtain ⟨e, s', herror⟩ := abortDeferred_error s hnone
    rw [hstep, hstep', bind_error herror, bind_error herror]

/-! ## The names of replies -/

theorem replyType_isSome {t : String} : (replyType t).isSome = true ↔ '_' ∈ t.toList := by
  simp only [replyType]
  by_cases h : '_' ∈ t.toList
  · simp [h]
  · simp [h]

theorem replyType_comm {t : String} (h : t ∈ commTypes) : replyType t = some "comm_reply" := by
  rcases List.mem_cons.mp h with rfl | h
  · decide
  rcases List.mem_cons.mp h with rfl | h
  · decide
  · rw [List.mem_singleton.mp h]
    decide

/-! ## When everything is aborted as it should be -/

theorem abortError_eq_none {m : Message} : abortError w m = none ↔
    (∃ t, typeOf m = some t ∧ '_' ∈ t.toList) ∧ w.sends abortedContent = none := by
  unfold abortError typeOf
  cases m.header.valueString "msg_type" "" with
  | error e => simp [Except.toOption]
  | ok t =>
    simp only [Except.toOption, Option.some.injEq, exists_eq_left', ← replyType_isSome]
    cases replyType t with
    | none => simp
    | some reply => simp

theorem aborted_of_sends_ne {m : Message} (h : w.sends abortedContent ≠ none) : aborted w m = [] := by
  unfold aborted
  split
  · rw [if_neg h]
  · rfl

theorem aborted_of_replyType {m : Message} {t reply : String} (hm : typeOf m = some t)
    (hreply : replyType t = some reply) (hsends : w.sends abortedContent = none) :
    aborted w m = [.aborted reply m.header] := by
  rw [aborted, hm, Option.bind_some, hreply]
  exact if_pos hsends

theorem exists_of_mem_right {α β : Type} {r : α → β → Prop} {as : List α} {bs : List β}
    (h : List.Forall₂ r as bs) {b : β} (hb : b ∈ bs) : ∃ a ∈ as, r a b := by
  induction h with
  | nil => cases hb
  | cons hab _ ih =>
    rcases List.mem_cons.mp hb with rfl | hb
    · exact ⟨_, List.mem_cons_self, hab⟩
    · obtain ⟨a, ha, hr⟩ := ih hb
      exact ⟨a, List.mem_cons_of_mem _ ha, hr⟩

theorem exists_of_mem_left {α β : Type} {r : α → β → Prop} {as : List α} {bs : List β}
    (h : List.Forall₂ r as bs) {a : α} (ha : a ∈ as) : ∃ b ∈ bs, r a b :=
  exists_of_mem_right h.flip ha

theorem AbortsAll.abortable {come : List (List (Option Message))} {s : State}
    (h : AbortsAll w come s) : Abortable w come s := by
  obtain ⟨s', replies, hrun, -, -, htrace, hanswered⟩ := h
  have hnone := (abortQueueWhile_ok_iff come s).mp ⟨s', hrun⟩
  rw [abortQueueWhile_ok come s hnone] at hrun
  have hflat : (waiting come s).flatMap (abortedRead w) = replies.flatten := by
    cases hrun
    exact List.append_cancel_left htrace
  refine ⟨fun m hm => (abortError_eq_none.mp (hnone m hm)).1, fun hsends m hm t ht htype => ?_, ?_⟩
  · -- its reply would be that of a comm message
    have hmem : Effect.aborted "comm_reply" m.header ∈ replies.flatten := by
      rw [← hflat, List.mem_flatMap]
      refine ⟨some m, hm, ?_⟩
      rw [abortedRead, aborted_of_replyType htype (replyType_comm ht) hsends]
      exact List.mem_singleton_self _
    obtain ⟨r, hr, hmem⟩ := List.mem_flatten.mp hmem
    obtain ⟨m', -, hm'⟩ := exists_of_mem_right hanswered hr
    cases m' with
    | none =>
      rw [show r = [] from hm'] at hmem
      cases hmem
    | some m' =>
      obtain ⟨t', ht'⟩ := hm'.own _ hmem
      have hheader : m.header = m'.header := (Effect.aborted.inj ht').2
      rw [hm'.comm t ht (by rw [typeOf, ← hheader]; exact htype)] at hmem
      cases hmem
  · by_cases hsends : w.sends abortedContent = none
    · exact .inl hsends
    · -- nothing can be answered, so no request was there
      refine .inr ⟨?_, fun m hm stem htype => ?_⟩
      · rw [List.eq_nil_iff_forall_not_mem]
        exact fun m hm => hsends (abortError_eq_none.mp (hnone m hm)).2
      · obtain ⟨r, hr, hanswers⟩ := exists_of_mem_left hanswered hm
        have hmem : Effect.aborted (stem ++ "_reply") m.header ∈ replies.flatten := by
          refine List.mem_flatten.mpr ⟨r, hr, ?_⟩
          rw [hanswers.request stem htype]
          exact List.mem_singleton_self _
        rw [← hflat, List.mem_flatMap] at hmem
        obtain ⟨m', -, hmem⟩ := hmem
        cases m' with
        | none => cases hmem
        | some m' =>
          rw [abortedRead, aborted_of_sends_ne hsends] at hmem
          cases hmem

end Jovian.Kernel
