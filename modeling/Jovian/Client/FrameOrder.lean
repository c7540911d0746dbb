import Jovian.Client.FrameEffects

/-!
# Jovian — frames take effect in the order they were sent

* **`frames_in_order`** — as long as no `kernelExit` is got behind a message that has yet to be
  routed, the frames take effect in the order they were pushed, however the outbox makes WebSocket
  messages of them.
* **`exit_overtakes_reply`** — a reply, its idle and a `kernelExit` in one WebSocket message.
-/

namespace Jovian.FrameOrder

open Transition (System)
open ExecutionQueue (JupyterMessage MsgType)
open Outbox (Text)

variable {cfg : Config}

/-! ## Whole WebSocket messages -/

/-- No `kernelExit` is behind a message: one that waits, or one of the frames before it. -/
def clean : Bool → List WsFrame → Bool
  | _, [] => true
  | _, .message _ :: frames => clean true frames
  | waiting, .kernelExit _ :: frames => !waiting && clean waiting frames
  | waiting, _ :: frames => clean waiting frames

/-- What is got has no `kernelExit` behind a message that has yet to be routed, unless the session
is stopped. -/
def Unhurried (cfg : Config) (s : State) : Event → Bool
  | .receive =>
    s.client.stopped || clean (!s.client.microtasks.isEmpty) (s.next.map cfg.decode)
  | _ => true

namespace Client

variable {c : Client}

theorem rejectPendingRequests_frame (c : Client) (error : String) :
    (c.rejectPendingRequests error).lines = c.lines ∧
    (c.rejectPendingRequests error).microtasks = c.microtasks ∧
    (c.rejectPendingRequests error).stopped = c.stopped := by
  unfold Client.rejectPendingRequests
  generalize c.pendingRequests = requests
  induction requests generalizing c with
  | nil => exact ⟨rfl, rfl, rfl⟩
  | cons request requests ih => exact ih (c.settle request.1 (.rejected error))

/-- What a line leaves waiting. -/
def waitingAfter (cfg : Config) (c : Client) (text : Text) : List Waiting :=
  match cfg.decode text with
  | .message message => Turns.start cfg.middlewares (c.lines.length, message) c.microtasks
  | _ => c.microtasks

theorem handleFrame_frame (c : Client) (text : Text) :
    (c.handleFrame cfg text).lines = c.lines ++ [text] ∧
    (c.handleFrame cfg text).microtasks = c.waitingAfter cfg text ∧
    (c.handleFrame cfg text).stopped = c.stopped := by
  unfold Client.handleFrame Client.waitingAfter
  dsimp only
  cases cfg.decode text with
  | kernelExit reason =>
    dsimp only
    split
    · exact ⟨rfl, rfl, rfl⟩
    · exact rejectPendingRequests_frame _ _
  | requestError id error =>
    dsimp only
    split <;> exact ⟨rfl, rfl, rfl⟩
  | _ => exact ⟨rfl, rfl, rfl⟩

theorem handleFrames_frame (c : Client) (texts : List Text) :
    (texts.foldl (Client.handleFrame cfg) c).lines = c.lines ++ texts := by
  induction texts generalizing c with
  | nil => exact (List.append_nil _).symm
  | cons text texts ih =>
    rw [List.foldl_cons, ih, (c.handleFrame_frame text).1, List.append_assoc, List.singleton_append]

/-- **The lines of a WebSocket message**, one after the other. -/
theorem Inv.handleFrames (h : c.Inv cfg) (texts : List Text)
    (hclean : c.stopped = true ∨ clean (!c.microtasks.isEmpty) (texts.map cfg.decode) = true) :
    (texts.foldl (Client.handleFrame cfg) c).Inv cfg := by
  induction texts generalizing c with
  | nil => exact h
  | cons text texts ih =>
    obtain ⟨-, hmicrotasks, hstopped⟩ := @handleFrame_frame cfg c text
    refine ih (h.handleFrame text fun reason htext hgoing => ?_) ?_
    · rcases hclean with hclean | hclean
      · exact absurd (hgoing.symm.trans hclean) Bool.false_ne_true
      · rw [List.map_cons, htext, clean, Bool.and_eq_true_iff] at hclean
        simpa using hclean.1
    · rw [hstopped, hmicrotasks]
      refine hclean.imp_right fun hclean => ?_
      rw [List.map_cons] at hclean
      unfold Client.waitingAfter
      cases hframe : cfg.decode text with
      | message message =>
        rw [hframe] at hclean
        have hne : (Turns.start cfg.middlewares (c.lines.length, message) c.microtasks).isEmpty = false := by
          simp [Turns.start]
        dsimp only
        rw [hne]
        exact hclean
      | kernelExit reason =>
        rw [hframe, clean, Bool.and_eq_true_iff] at hclean
        exact hclean.2
      | _ =>
        rw [hframe] at hclean
        exact hclean

end Client

/-! ## With the outbox -/

structure Inv (cfg : Config) (s : State) : Prop where
  outbox : Outbox.Inv s.outbox
  client : s.client.Inv cfg
  received : s.received ≤ s.outbox.sent.length
  lines : s.client.lines = (s.outbox.sent.take s.received).flatMap Outbox.lines

variable {s : State}

theorem inv_init : Inv cfg {} where
  outbox := Outbox.inv_init
  client := .init
  received := Nat.le_refl 0
  lines := rfl

/-- What the outbox has sent is not taken back. -/
theorem sent_step (o : Outbox.State) (e : Outbox.Event) : o.sent <+: (Outbox.step o e).sent := by
  have hlog : o.log <+: (Outbox.step o e).log := by
    cases e with
    | push m =>
      show o.log <+: (o.push m).log
      unfold Outbox.State.push
      split <;> exact List.prefix_refl _
    | stop => exact List.prefix_refl _
    | abandon => exact List.prefix_append _ _
    | sender unsent =>
      show o.log <+: (Outbox.run o unsent).log
      unfold Outbox.run
      split
      · split
        · split <;> exact List.prefix_refl _
        · exact List.prefix_refl _
      · split
        · exact List.prefix_refl _
        · exact List.prefix_append _ _
      · exact List.prefix_refl _
      · split
        · exact List.prefix_append _ _
        · exact List.prefix_refl _
      · exact List.prefix_append _ _
      · exact List.prefix_refl _
      · exact List.prefix_refl _
  exact hlog.filterMap _

namespace Inv

/-- The lines the client has had are what was pushed first. -/
theorem lines_prefix (h : Inv cfg s) : s.client.lines <+: s.outbox.texts := by
  have hdelivered : (s.outbox.sent.take s.received).flatMap Outbox.lines <+: s.outbox.delivered := by
    obtain ⟨rest, hrest⟩ := List.take_prefix s.received s.outbox.sent
    refine ⟨rest.flatMap Outbox.lines, ?_⟩
    rw [← List.flatMap_append, hrest, Outbox.State.delivered]
  rw [h.lines]
  exact hdelivered.trans ((List.prefix_append _ _).trans h.outbox.in_order)

theorem getElem?_texts (h : Inv cfg s) {k : Nat} (hk : k < s.client.lines.length) :
    s.client.lines[k]? = s.outbox.texts[k]? := by
  obtain ⟨rest, hrest⟩ := h.lines_prefix
  rw [← hrest, List.getElem?_append_left hk]

/-- The client goes on by itself. -/
theorem with_client (h : Inv cfg s) {c : Client} (hc : c.Inv cfg) (hlines : c.lines = s.client.lines) :
    Inv cfg { s with client := c } where
  outbox := h.outbox
  client := hc
  received := h.received
  lines := hlines.trans h.lines

theorem outbox_step (h : Inv cfg s) (e : Outbox.Event) :
    Inv cfg { s with outbox := Outbox.step s.outbox e } where
  outbox := h.outbox.step e
  client := h.client
  received := h.received.trans (sent_step s.outbox e).length_le
  lines := by
    obtain ⟨rest, hrest⟩ := sent_step s.outbox e
    show s.client.lines = ((Outbox.step s.outbox e).sent.take s.received).flatMap Outbox.lines
    rw [← hrest, List.take_append_of_le_length h.received]
    exact h.lines

theorem receive (h : Inv cfg s) (hunhurried : Unhurried cfg s .receive = true) :
    Inv cfg (receive cfg s) := by
  unfold FrameOrder.receive
  split
  · exact h
  · next frame rest hnext =>
    have hlt : s.received < s.outbox.sent.length := by
      by_contra hge
      rw [List.drop_of_length_le (Nat.le_of_not_lt hge)] at hnext
      cases hnext
    have hframe : s.outbox.sent.take (s.received + 1) = s.outbox.sent.take s.received ++ [frame] := by
      have hget : s.outbox.sent[s.received]? = some frame := by
        rw [← List.head?_drop, hnext, List.head?_cons]
      rw [List.take_add_one, hget, Option.toList_some]
    -- no line is empty: each is a message that was pushed
    have hall : s.next = Outbox.lines frame := by
      have hlines : ∀ line ∈ Outbox.lines frame, line ∈ s.outbox.texts := by
        intro line hline
        refine ((List.prefix_append _ _).trans h.outbox.in_order).subset ?_
        refine List.mem_flatMap.mpr ⟨frame, ?_, hline⟩
        exact List.mem_of_mem_drop (hnext ▸ List.mem_cons_self)
      rw [State.next, hnext]
      refine List.filter_eq_self.mpr fun line hline => ?_
      obtain ⟨m, -, rfl⟩ := List.mem_map.mp (hlines line hline)
      exact decide_eq_true m.ne_nil
    refine ⟨h.outbox, h.client.handleFrames s.next ?_, hlt, ?_⟩
    · rw [Unhurried, Bool.or_eq_true] at hunhurried
      exact hunhurried
    · show (s.next.foldl (Client.handleFrame cfg) s.client).lines = _
      rw [s.client.handleFrames_frame, hframe, List.flatMap_append, h.lines, hall]
      simp

/-- A callback, or the next microtask, handles no line. -/
theorem emit_lines (c : Client) (index : Nat) (message : JupyterMessage) :
    (c.emit cfg index message).lines = c.lines := by
  unfold Client.emit
  dsimp only
  split
  · split <;> rfl
  · rfl

theorem step (h : Inv cfg s) (e : Event) (hunhurried : Unhurried cfg s e = true) :
    Inv cfg (step cfg s e) := by
  cases e with
  | outbox e => exact h.outbox_step e
  | receive => exact h.receive hunhurried
  | microtask =>
    refine h.with_client h.client.microtask ?_
    unfold Client.microtask
    dsimp only
    split
    · exact emit_lines _ _ _
    · rfl
  | execute code options =>
    refine h.with_client (h.client.execute code options) ?_
    unfold Client.execute
    split <;> rfl
  | request id replyType => exact h.with_client (h.client.request id replyType) rfl
  | requestTimeout id =>
    refine h.with_client (h.client.requestTimeout id) ?_
    unfold Client.requestTimeout
    split <;> rfl
  | stop =>
    refine h.with_client h.client.stop ?_
    unfold Client.stop
    split
    · rfl
    · exact (Client.rejectPendingRequests_frame _ _).1
  | timer e =>
    cases e with
    | timeout ticket => exact h.with_client (h.client.called _) rfl
    | idleWaitExpired handle => exact h.with_client (h.client.called _) rfl
    | interruptCompleted ticket => exact h.with_client (h.client.called _) rfl
    | execute | clear | message => exact h

theorem sound (h : Inv cfg s) (hids : ExecutionQueue.FreshIds cfg.queue) : Sound cfg s where
  in_order := h.client.ordered.in_order
  pushed x hx := by
    obtain ⟨text, hline, hframe⟩ := h.client.ordered.logged x hx
    have hlt := (List.getElem?_eq_some_iff.mp hline).1
    exact ⟨text, (h.getElem?_texts hlt).symm.trans hline, hframe⟩
  none_passed pre a x post hlog hx k hk text htext := by
    have hmem : x ∈ effects s.client.log :=
      List.mem_filterMap.mpr ⟨a, by rw [hlog]; simp, hx⟩
    have hlt := Nat.lt_trans hk (lt_length h.client.ordered hmem)
    refine h.client.ordered.none_passed pre a x post hlog hx k hk text ?_
    exact (h.getElem?_texts hlt).trans htext
  complete hthrough k text htext := by
    have hall : s.client.lines = s.outbox.texts := by
      rw [h.lines, List.take_of_length_le hthrough.received]
      exact h.outbox.complete hthrough.ended hthrough.kept
    rcases h.client.ordered.done k text (by rw [hall]; exact htext) with hdone | ⟨j, hj, -⟩
    · exact hdone
    · rw [hthrough.idle] at hj
      exact absurd hj List.not_mem_nil
  executions a sending b index reason c hlog x msgId hnew hsent hes hreply hidle := by
    rw [h.client.queue, hlog]
    exact executions_resolve hids hnew hsent hes hreply hidle
  requests := h.client.answering.answered

end Inv

/-! ## The headline -/

/-- **Frames take effect in the order sent**, however the outbox makes WebSocket messages of them, in
every run that gets no `kernelExit` behind a message that has yet to be routed. -/
theorem frames_in_order (hids : ExecutionQueue.FreshIds cfg.queue) :
    ∀ s, ((system cfg).when fun s e => Unhurried cfg s e = true).Reachable s → Sound cfg s := by
  intro s hs
  refine Inv.sound (System.invariant_ofFn inv_init (fun s e hs he => ?_) hs) hids
  exact hs.step e he

/-- One execution, its reply, its idle, and the kernel's end. -/
def reply : JupyterMessage :=
  { msgType := .executeReply, parentMsgId := "i", content := { status := some .ok } }

def idle : JupyterMessage :=
  { msgType := .status, parentMsgId := "i", content := { executionState := some "idle" } }

def utf8 (text : String) : Text := text.toList.map fun c => c.toNat.toUInt8

def replyLine : Outbox.Message where
  text := utf8 "\x7b\"type\":\"message\",\"msg_type\":\"execute_reply\",\"parent_msg_id\":\"i\",\"content\":\x7b\"status\":\"ok\"\x7d\x7d"
  ne_nil := by decide +kernel
  one_line := by decide +kernel

def idleLine : Outbox.Message where
  text := utf8 "\x7b\"type\":\"message\",\"msg_type\":\"status\",\"parent_msg_id\":\"i\",\"content\":\x7b\"execution_state\":\"idle\"\x7d\x7d"
  ne_nil := by decide +kernel
  one_line := by decide +kernel

def exitLine : Outbox.Message where
  text := utf8 "\x7b\"type\":\"kernelExit\",\"reason\":\"code 3\"\x7d"
  ne_nil := by decide +kernel
  one_line := by decide +kernel

/-- No middleware, as by default. -/
def oneCell : Config where
  decode text :=
    if text = replyLine.text then .message reply
    else if text = idleLine.text then .message idle
    else if text = exitLine.text then .kernelExit "code 3"
    else .other
  middlewares := 0
  queue := ExecutionQueue.counting

/-- `pollLoop` relays what the kernel published last, and then its end, before the sender wakes. -/
def relayed : List Event :=
  [.execute "quit()" {}, .outbox (.push replyLine),
    .outbox (.push idleLine),
    .outbox (.push exitLine)] ++
  List.replicate 8 (.outbox (.sender 0)) ++ [.receive, .microtask, .microtask]

/-- **A `kernelExit` overtakes the reply** it comes behind in one WebSocket message: the execution
is rejected, and its reply is delivered after the exit. -/
theorem exit_overtakes_reply :
    (relayed.foldl (step oneCell) {}).outbox.sent.length = 1 ∧
    (effects (relayed.foldl (step oneCell) {}).client.log).map Prod.fst = [2, 0, 1] ∧
    (relayed.foldl (step oneCell) {}).client.queue.settlementsOf 0 =
      [.rejected ExecutionQueue.CLEARED_MESSAGE] ∧
    ¬ Sound oneCell (relayed.foldl (step oneCell) {}) := by
  have hrun : (relayed.foldl (step oneCell) {}).outbox.sent.length = 1 ∧
      (effects (relayed.foldl (step oneCell) {}).client.log).map Prod.fst = [2, 0, 1] ∧
      (relayed.foldl (step oneCell) {}).client.queue.settlementsOf 0 =
        [.rejected ExecutionQueue.CLEARED_MESSAGE] := by
    decide +kernel
  obtain ⟨hsent, heffects, hrejected⟩ := hrun
  refine ⟨hsent, heffects, hrejected, fun h => ?_⟩
  have hsorted : ((effects (relayed.foldl (step oneCell) {}).client.log).map Prod.fst).Pairwise
      (· < ·) := List.pairwise_map.mpr h.in_order
  rw [heffects] at hsorted
  exact absurd hsorted (by decide)

/-- The end is pushed once the reply and the idle have been routed. -/
def waited : List Event :=
  [.execute "quit()" {}, .outbox (.push replyLine),
    .outbox (.push idleLine)] ++
  List.replicate 7 (.outbox (.sender 0)) ++ [.receive, .microtask, .microtask,
    .outbox (.push exitLine)] ++
  List.replicate 5 (.outbox (.sender 0)) ++ [.receive]

theorem frames_in_order_waited : Sound oneCell (waited.foldl (step oneCell) {}) ∧
    (effects (waited.foldl (step oneCell) {}).client.log).map Prod.fst = [0, 1, 2] ∧
    (waited.foldl (step oneCell) {}).client.queue.settlementsOf 0 =
      [.resolved { success := true, output := [], status := some .ok }] := by
  have hrun : System.allSteps (step oneCell) (Unhurried oneCell) {} waited = true ∧
      (effects (waited.foldl (step oneCell) {}).client.log).map Prod.fst = [0, 1, 2] ∧
      (waited.foldl (step oneCell) {}).client.queue.settlementsOf 0 =
        [.resolved { success := true, output := [], status := some .ok }] := by
    decide +kernel
  obtain ⟨hall, heffects, hresolved⟩ := hrun
  have hs := System.reachable_of_allSteps hall
  exact ⟨frames_in_order ExecutionQueue.freshIds_counting _ hs, heffects, hresolved⟩

end Jovian.FrameOrder
