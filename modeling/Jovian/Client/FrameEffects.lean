import Jovian.Client.SessionFrames
import Jovian.Lib.Log

/-!
# Jovian — the effects of frames, one at a time

What the client keeps between two of its callbacks.

* `Ordered` — the effects so far are in order, and each message that waits comes behind them. A
  message may always be routed (`Ordered.message`); a `kernelExit` keeps the order where nothing
  waits (`Ordered.exit`).
* `Answering` — a request's reply settles it.
* **`executions_resolve`** — an execution that has got a reply and an idle has been resolved.
* **`Client.Inv.handleFrame`** puts these together.
-/

namespace Jovian.FrameOrder

open ExecutionQueue (JupyterMessage MsgType)
open Outbox (Text)

variable (cfg : Config)

/-! ## The order of the effects -/

/-- A message that waits is behind every effect; each line's frame is done or waits. -/
structure Ordered (lines : List Text) (jobs : List Waiting) (log : List Action) : Prop where
  fair : Turns.Fair (fun i j => i.1 < j.1) cfg.middlewares jobs
  waiting : ∀ j ∈ jobs, ∃ text, lines[j.item.1]? = some text ∧ cfg.decode text = .message j.item.2
  logged : ∀ x ∈ effects log, ∃ text, lines[x.1]? = some text ∧ cfg.decode text = x.2
  behind : ∀ x ∈ effects log, ∀ j ∈ jobs, x.1 < j.item.1
  done : ∀ k text, lines[k]? = some text →
    Done log k (cfg.decode text) ∨ ∃ j ∈ jobs, j.item.1 = k
  in_order : (effects log).Pairwise (·.1 < ·.1)
  none_passed : ∀ pre a x post, log = pre ++ a :: post → a.effect? = some x →
    ∀ k < x.1, ∀ text, lines[k]? = some text → Done pre k (cfg.decode text)

variable {cfg} {lines : List Text} {jobs : List Waiting} {log : List Action} {text : Text}
  {a : Action}

theorem Done.mono {frame : WsFrame} {k : Nat} {log' : List Action} (h : Done log k frame)
    (hsub : log ⊆ log') : Done log' k frame := by
  cases frame with
  | message message => exact hsub h
  | kernelExit reason => exact h.imp (fun h => hsub h) (fun h => hsub h)
  | ready | log | requestError | other => trivial

theorem lt_length {x : Nat × WsFrame} (h : Ordered cfg lines jobs log) (hx : x ∈ effects log) :
    x.1 < lines.length := by
  obtain ⟨text, hline, -⟩ := h.logged x hx
  exact (List.getElem?_eq_some_iff.mp hline).1

theorem effects_snoc_none (ha : a.effect? = none) : effects (log ++ [a]) = effects log := by
  rw [effects, List.filterMap_append]
  simp [ha, effects]

theorem effects_snoc {x : Nat × WsFrame} (ha : a.effect? = some x) :
    effects (log ++ [a]) = effects log ++ [x] := by
  rw [effects, List.filterMap_append]
  simp [ha, effects]

namespace Ordered

/-- An action that is no effect. -/
theorem quiet (h : Ordered cfg lines jobs log) (ha : a.effect? = none) :
    Ordered cfg lines jobs (log ++ [a]) where
  fair := h.fair
  waiting := h.waiting
  logged := by
    rw [effects_snoc_none ha]
    exact h.logged
  behind := by
    rw [effects_snoc_none ha]
    exact h.behind
  done k text hline := (h.done k text hline).imp_left fun h => h.mono (List.subset_append_left _ _)
  in_order := by
    rw [effects_snoc_none ha]
    exact h.in_order
  none_passed pre b x post hlog hb := by
    have hne : b ≠ a := by
      rintro rfl
      rw [ha] at hb
      cases hb
    obtain ⟨post', -, hold⟩ := Log.split_snoc_of_ne hne hlog
    exact h.none_passed pre b x post' hold hb


/-- A line whose frame asks for nothing more. -/
theorem line (h : Ordered cfg lines jobs log)
    (hdone : Done log lines.length (cfg.decode text)) :
    Ordered cfg (lines ++ [text]) jobs log where
  fair := h.fair
  waiting j hj := by
    obtain ⟨t, hline, hframe⟩ := h.waiting j hj
    exact ⟨t, Log.getElem?_old hline, hframe⟩
  logged x hx := by
    obtain ⟨t, hline, hframe⟩ := h.logged x hx
    exact ⟨t, Log.getElem?_old hline, hframe⟩
  behind := h.behind
  done k t hline := by
    rcases Log.getElem?_snoc.mp hline with hline | ⟨rfl, rfl⟩
    · exact h.done k t hline
    · exact .inl hdone
  in_order := h.in_order
  none_passed pre b x post hlog hb k hk t hline := by
    have hx : x ∈ effects log := List.mem_filterMap.mpr ⟨b, by rw [hlog]; simp, hb⟩
    have hlt := lt_length h hx
    rcases Log.getElem?_snoc.mp hline with hline | ⟨rfl, -⟩
    · exact h.none_passed pre b x post hlog hb k hk t hline
    · omega

/-- A line whose message waits from now on. -/
theorem start {message : JupyterMessage} (h : Ordered cfg lines jobs log)
    (htext : cfg.decode text = .message message) :
    Ordered cfg (lines ++ [text])
      (Turns.start cfg.middlewares (lines.length, message) jobs) log where
  fair := by
    refine h.fair.start fun j hj => ?_
    obtain ⟨t, hline, -⟩ := h.waiting j hj
    exact (List.getElem?_eq_some_iff.mp hline).1
  waiting j hj := by
    rcases List.mem_append.mp hj with hj | hj
    · obtain ⟨t, hline, hframe⟩ := h.waiting j hj
      exact ⟨t, Log.getElem?_old hline, hframe⟩
    · rw [List.mem_singleton.mp hj]
      exact ⟨text, List.getElem?_concat_length, htext⟩
  logged x hx := by
    obtain ⟨t, hline, hframe⟩ := h.logged x hx
    exact ⟨t, Log.getElem?_old hline, hframe⟩
  behind x hx j hj := by
    rcases List.mem_append.mp hj with hj | hj
    · exact h.behind x hx j hj
    · rw [List.mem_singleton.mp hj]
      exact lt_length h hx
  done k t hline := by
    rcases Log.getElem?_snoc.mp hline with hline | ⟨rfl, rfl⟩
    · refine (h.done k t hline).imp_right fun ⟨j, hj, hk⟩ => ?_
      exact ⟨j, List.mem_append_left _ hj, hk⟩
    · exact .inr ⟨_, List.mem_append_right _ List.mem_cons_self, rfl⟩
  in_order := h.in_order
  none_passed pre b x post hlog hb k hk t hline := by
    have hx : x ∈ effects log := List.mem_filterMap.mpr ⟨b, by rw [hlog]; simp, hb⟩
    have hlt := lt_length h hx
    rcases Log.getElem?_snoc.mp hline with hline | ⟨rfl, -⟩
    · exact h.none_passed pre b x post hlog hb k hk t hline
    · omega

/-- A `kernelExit`, with nothing that waits. -/
theorem exit {reason : String} (h : Ordered cfg lines [] log)
    (htext : cfg.decode text = .kernelExit reason) :
    Ordered cfg (lines ++ [text]) [] (log ++ [.exit lines.length reason]) where
  fair := Turns.fair_nil
  waiting j hj := absurd hj List.not_mem_nil
  logged x hx := by
    rw [effects_snoc rfl] at hx
    rcases List.mem_append.mp hx with hx | hx
    · obtain ⟨t, hline, hframe⟩ := h.logged x hx
      exact ⟨t, Log.getElem?_old hline, hframe⟩
    · rw [List.mem_singleton.mp hx]
      exact ⟨text, List.getElem?_concat_length, htext⟩
  behind x hx j hj := absurd hj List.not_mem_nil
  done k t hline := by
    left
    rcases Log.getElem?_snoc.mp hline with hline | ⟨rfl, rfl⟩
    · rcases h.done k t hline with hdone | ⟨j, hj, -⟩
      · exact hdone.mono (List.subset_append_left _ _)
      · exact absurd hj List.not_mem_nil
    · rw [htext]
      exact .inl (List.mem_append_right _ List.mem_cons_self)
  in_order := by
    rw [effects_snoc rfl]
    refine List.pairwise_append.mpr ⟨h.in_order, List.pairwise_singleton _ _, fun x hx y hy => ?_⟩
    rw [List.mem_singleton.mp hy]
    exact lt_length h hx
  none_passed pre b x post hlog hb k hk t hline := by
    rcases Log.split_snoc hlog with ⟨-, rfl, rfl⟩ | ⟨post', -, hold⟩
    · -- the exit itself: each line before is done, as nothing waits
      obtain rfl := Option.some.inj hb
      rcases Log.getElem?_snoc.mp hline with hline | ⟨rfl, -⟩
      · rcases h.done k t hline with hdone | ⟨j, hj, -⟩
        · exact hdone
        · exact absurd hj List.not_mem_nil
      · exact absurd hk (Nat.lt_irrefl _)
    · have hx : x ∈ effects log := List.mem_filterMap.mpr ⟨b, by rw [hold]; simp, hb⟩
      have hlt := lt_length h hx
      rcases Log.getElem?_snoc.mp hline with hline | ⟨rfl, -⟩
      · exact h.none_passed pre b x post' hold hb k hk t hline
      · omega

/-- A turn that was not the last. -/
theorem turn (h : Ordered cfg lines jobs log) (hturn : (Turns.turn jobs).1 = none) :
    Ordered cfg lines (Turns.turn jobs).2 log where
  fair := h.fair.turn
  waiting j hj := by
    obtain ⟨i, hi, hitem⟩ := (Turns.mem_turn j.item).mpr (.inr ⟨j, hj, rfl⟩)
    rw [← hitem]
    exact h.waiting i hi
  logged := h.logged
  behind x hx j hj := by
    obtain ⟨i, hi, hitem⟩ := (Turns.mem_turn j.item).mpr (.inr ⟨j, hj, rfl⟩)
    rw [← hitem]
    exact h.behind x hx i hi
  done k t hline := by
    refine (h.done k t hline).imp_right fun ⟨j, hj, hk⟩ => ?_
    rcases (Turns.mem_turn j.item).mp ⟨j, hj, rfl⟩ with hsome | ⟨i, hi, hitem⟩
    · rw [hturn] at hsome
      cases hsome
    · exact ⟨i, hi, by rw [hitem, hk]⟩
  in_order := h.in_order
  none_passed := h.none_passed

/-- **A message is routed:** no line before it still waits. -/
theorem message {index : Nat} {message : JupyterMessage} (h : Ordered cfg lines jobs log)
    (hturn : (Turns.turn jobs).1 = some (index, message)) :
    Ordered cfg lines (Turns.turn jobs).2 (log ++ [.message index message]) := by
  obtain ⟨j, hj, hitem⟩ := (Turns.mem_turn (index, message)).mpr (.inl hturn)
  have hfirst := h.fair.first hturn
  have hwas : ∀ i ∈ (Turns.turn jobs).2, ∃ i' ∈ jobs, i'.item = i.item := fun i hi =>
    (Turns.mem_turn i.item).mpr (.inr ⟨i, hi, rfl⟩)
  obtain ⟨text, hline, htext⟩ := h.waiting j hj
  rw [hitem] at hline htext
  have hdone : ∀ k t, lines[k]? = some t → Done (log ++ [.message index message]) k (cfg.decode t) ∨
      ∃ i ∈ (Turns.turn jobs).2, i.item.1 = k := by
    intro k t hk
    rcases h.done k t hk with hdone | ⟨i, hi, rfl⟩
    · exact .inl (hdone.mono (List.subset_append_left _ _))
    · rcases (Turns.mem_turn i.item).mp ⟨i, hi, rfl⟩ with hsome | ⟨i', hi', hsame⟩
      · left
        obtain heq : (index, message) = i.item := Option.some.inj (hturn.symm.trans hsome)
        rw [← heq] at hk ⊢
        obtain rfl := Option.some.inj (hk.symm.trans hline)
        rw [htext]
        exact List.mem_append_right _ List.mem_cons_self
      · exact .inr ⟨i', hi', by rw [hsame]⟩
  refine ⟨h.fair.turn, fun i hi => ?_, fun x hx => ?_, fun x hx i hi => ?_, hdone, ?_,
    fun pre b x post hlog hb k hk t hkt => ?_⟩
  · obtain ⟨i', hi', hsame⟩ := hwas i hi
    rw [← hsame]
    exact h.waiting i' hi'
  · rw [effects_snoc rfl] at hx
    rcases List.mem_append.mp hx with hx | hx
    · exact h.logged x hx
    · rw [List.mem_singleton.mp hx]
      exact ⟨text, hline, htext⟩
  · rw [effects_snoc rfl] at hx
    rcases List.mem_append.mp hx with hx | hx
    · obtain ⟨i', hi', hsame⟩ := hwas i hi
      rw [← hsame]
      exact h.behind x hx i' hi'
    · rw [List.mem_singleton.mp hx]
      exact hfirst i hi
  · rw [effects_snoc rfl]
    refine List.pairwise_append.mpr ⟨h.in_order, List.pairwise_singleton _ _, fun x hx y hy => ?_⟩
    rw [List.mem_singleton.mp hy]
    have hlt := h.behind x hx j hj
    rwa [hitem] at hlt
  · rcases Log.split_snoc hlog with ⟨-, rfl, rfl⟩ | ⟨post', -, hold⟩
    · -- a line before that is not done would wait, and be first
      obtain rfl := Option.some.inj hb
      rcases h.done k t hkt with hdone | ⟨i, hi, rfl⟩
      · exact hdone
      · rcases (Turns.mem_turn i.item).mp ⟨i, hi, rfl⟩ with hsome | ⟨i', hi', hsame⟩
        · obtain heq : (index, message) = i.item := Option.some.inj (hturn.symm.trans hsome)
          rw [← heq] at hk
          exact absurd hk (Nat.lt_irrefl _)
        · have hlt : index < i'.item.1 := hfirst i' hi'
          rw [hsame] at hlt
          exact absurd hk (Nat.lt_asymm hlt)
    · exact h.none_passed pre b x post' hold hb k hk t hkt

end Ordered

/-! ## Requests -/

/-- The reply that comes first settles a request: nothing else is between the two. -/
structure Answering (pending : InsertionMap String MsgType) (log : List Action) : Prop where
  pending : ∀ a id replyType b, log = a ++ .asked id replyType :: b →
    (∀ replyType', .asked id replyType' ∉ b) → (∀ how, .settled id how ∉ b) →
    pending.get id = some replyType
  answered : ∀ a id replyType b index message c,
    log = a ++ .asked id replyType :: (b ++ .message index message :: c) →
    message.parentMsgId = id → message.msgType = replyType →
    (∀ replyType', .asked id replyType' ∉ b) → (∀ how, .settled id how ∉ b) →
    ∃ c', c = .settled id (.replied message) :: c'

variable {pending : InsertionMap String MsgType} {id : String}

theorem not_mem_of_snoc {b : List Action} {x : Action} (h : x ∉ b ++ [a]) : x ∉ b :=
  fun hx => h (List.mem_append_left _ hx)

namespace Answering

/-- What was answered in the log is, whatever comes behind; a `message` that comes is looked at. -/
theorem answered_snoc (h : Answering pending log)
    (hnew : ∀ index message, a = .message index message →
      pending.get message.parentMsgId ≠ some message.msgType) :
    ∀ a' id replyType b index message c,
      log ++ [a] = a' ++ .asked id replyType :: (b ++ .message index message :: c) →
      message.parentMsgId = id → message.msgType = replyType →
      (∀ replyType', .asked id replyType' ∉ b) → (∀ how, .settled id how ∉ b) →
      ∃ c', c = .settled id (.replied message) :: c' := by
  intro a' id replyType b index message c hlog hid htype hasked hsettled
  rw [← List.cons_append, ← List.append_assoc] at hlog
  rcases Log.split_snoc hlog with ⟨-, hpre, hmessage⟩ | ⟨c', rfl, hold⟩
  · have hget := h.pending a' id replyType b hpre.symm hasked hsettled
    rw [← hid, ← htype] at hget
    exact absurd hget (hnew index message hmessage.symm)
  · rw [List.append_assoc, List.cons_append] at hold
    obtain ⟨c'', rfl⟩ := h.answered a' id replyType b index message c' hold hid htype hasked hsettled
    exact ⟨c'' ++ [a], rfl⟩

theorem note (h : Answering pending log) (hasked : ∀ id replyType, a ≠ .asked id replyType)
    (hnew : ∀ index message, a = .message index message →
      pending.get message.parentMsgId ≠ some message.msgType) : Answering pending (log ++ [a]) where
  pending a' id replyType b hlog hb hsettled := by
    obtain ⟨b', rfl, hold⟩ := Log.split_snoc_of_ne (fun heq => hasked id replyType heq.symm) hlog
    exact h.pending a' id replyType b' hold (fun r => not_mem_of_snoc (hb r))
      fun how => not_mem_of_snoc (hsettled how)
  answered := h.answered_snoc hnew

theorem asked (h : Answering pending log) (id : String) (replyType : MsgType) :
    Answering (pending.set id replyType) (log ++ [.asked id replyType]) where
  pending a' id' replyType' b hlog hb hsettled := by
    rcases Log.split_snoc hlog with ⟨-, -, heq⟩ | ⟨b', rfl, hold⟩
    · obtain ⟨rfl, rfl⟩ := Action.asked.inj heq
      exact InsertionMap.get_set_self _ _ _
    · have hne : id' ≠ id := by
        rintro rfl
        exact hb replyType (List.mem_append_right _ List.mem_cons_self)
      rw [InsertionMap.get_set_ne _ hne]
      exact h.pending a' id' replyType' b' hold (fun r => not_mem_of_snoc (hb r))
        fun how => not_mem_of_snoc (hsettled how)
  answered := h.answered_snoc fun _ _ heq => by cases heq

theorem settled (h : Answering pending log) (id : String) (how : Settlement) :
    Answering (pending.delete id) (log ++ [.settled id how]) where
  pending a' id' replyType b hlog hb hsettled := by
    obtain ⟨b', rfl, hold⟩ := Log.split_snoc_of_ne (by simp) hlog
    have hne : id' ≠ id := by
      rintro rfl
      exact hsettled how (List.mem_append_right _ List.mem_cons_self)
    rw [InsertionMap.get_delete_ne _ hne]
    exact h.pending a' id' replyType b' hold (fun r => not_mem_of_snoc (hb r))
      fun how => not_mem_of_snoc (hsettled how)
  answered := h.answered_snoc fun _ _ heq => by cases heq

/-- The reply of a request that is pending. -/
theorem replied {index : Nat} {message : JupyterMessage} (h : Answering pending log) :
    Answering (pending.delete message.parentMsgId)
      (log ++ [.message index message] ++ [.settled message.parentMsgId (.replied message)]) where
  pending a' id' replyType b hlog hb hsettled := by
    obtain ⟨b', rfl, hold⟩ := Log.split_snoc_of_ne (by simp) hlog
    obtain ⟨b'', rfl, hlog'⟩ := Log.split_snoc_of_ne (by simp) hold
    have hne : id' ≠ message.parentMsgId := by
      rintro rfl
      exact hsettled _ (List.mem_append_right _ List.mem_cons_self)
    rw [InsertionMap.get_delete_ne _ hne]
    exact h.pending a' id' replyType b'' hlog' (fun r => not_mem_of_snoc (not_mem_of_snoc (hb r)))
      fun how => not_mem_of_snoc (not_mem_of_snoc (hsettled how))
  answered := by
    intro a' id replyType b i m c hlog hid htype hasked hsettled
    rw [← List.cons_append, ← List.append_assoc] at hlog
    obtain ⟨c', rfl, hold⟩ := Log.split_snoc_of_ne (by simp) hlog
    rcases Log.split_snoc hold with ⟨rfl, -, heq⟩ | ⟨c'', rfl, hlog'⟩
    · obtain ⟨rfl, rfl⟩ := Action.message.inj heq
      rw [hid]
      exact ⟨[], rfl⟩
    · rw [List.append_assoc, List.cons_append] at hlog'
      obtain ⟨c₀, rfl⟩ := h.answered a' id replyType b i m c'' hlog' hid htype hasked hsettled
      exact ⟨_, rfl⟩

end Answering

/-! ## Executions -/

section Executions

open ExecutionQueue (Collected Progress PendingExecution)

/-- What an unfinished execution has got, it has: not both an idle and a reply. -/
structure Half (g g' : Collected) (ms : List JupyterMessage) : Prop where
  half : g'.idle = false ∨ g'.reply = none
  idle : (g.idle = true ∨ ∃ m ∈ ms, m.isIdle = true) → g'.idle = true
  reply : (g.reply ≠ none ∨ ∃ m ∈ ms, m.msgType = .executeReply) → g'.reply ≠ none

theorem next_half {g : Collected} (hg : g.idle = false ∨ g.reply = none) (m : JupyterMessage) :
    (∃ result, g.next m = .finished result) ∨ ∃ g', g.next m = .waiting g' ∧ Half g g' [m] := by
  have hsame : m.isIdle = false → m.msgType ≠ .executeReply → ∀ g' : Collected, g'.idle = g.idle →
      g'.reply = g.reply → Half g g' [m] := by
    intro hidle htype g' hi hr
    constructor
    · rw [hi, hr]
      exact hg
    · simp [hi, hidle]
    · simp [hr, htype]
  unfold Collected.next
  cases htype : m.msgType with
  | status =>
    dsimp only
    split
    · next hidle =>
      cases hreply : g.reply with
      | some reply => exact .inl ⟨_, rfl⟩
      | none =>
        refine .inr ⟨_, rfl, .inr rfl, fun _ => rfl, ?_⟩
        simp [htype, hreply]
    · next hidle =>
      refine .inr ⟨g, rfl, hsame ?_ (by simp [htype]) g rfl rfl⟩
      simp [JupyterMessage.isIdle, hidle]
  | error => exact .inl ⟨_, rfl⟩
  | executeReply =>
    dsimp only
    split
    · exact .inl ⟨_, rfl⟩
    · next hwaits =>
      have hidle : g.idle = false := by
        by_contra h
        rw [eq_true_of_ne_false h] at hwaits
        exact hwaits rfl
      refine .inr ⟨_, rfl, .inl hidle, ?_, fun _ => by simp⟩
      simp [hidle, JupyterMessage.isIdle, htype]
  | _ =>
    refine .inr ⟨_, rfl, hsame ?_ (by simp [htype]) _ rfl rfl⟩
    simp [JupyterMessage.isIdle, htype]

/-- **A reply and an idle finish an execution**, in either order. -/
theorem finished_of_messages {ms : List JupyterMessage}
    (hreply : ∃ m ∈ ms, m.msgType = .executeReply) (hidle : ∃ m ∈ ms, m.isIdle = true) :
    ∃ result, ms.foldl Progress.next (.waiting {}) = .finished result := by
  have hrun : ∀ (ms : List JupyterMessage) (g : Collected), (g.idle = false ∨ g.reply = none) →
      (∃ result, ms.foldl Progress.next (.waiting g) = .finished result) ∨
      ∃ g', ms.foldl Progress.next (.waiting g) = .waiting g' ∧ Half g g' ms := by
    intro ms
    induction ms with
    | nil =>
      intro g hg
      exact .inr ⟨g, rfl, hg, by simp, by simp⟩
    | cons m ms ih =>
      intro g hg
      rw [List.foldl_cons]
      rcases next_half hg m with ⟨result, hnext⟩ | ⟨g₁, hnext, hstep⟩
      · left
        rw [Progress.next, hnext]
        exact ⟨result, ExecutionQueue.foldl_finished result ms⟩
      · rw [Progress.next, hnext]
        rcases ih g₁ hstep.half with hfinished | ⟨g', hfold, hrest⟩
        · exact .inl hfinished
        · refine .inr ⟨g', hfold, hrest.half, fun h => hrest.idle ?_, fun h => hrest.reply ?_⟩
          · rcases h with h | ⟨m', hm', h⟩
            · exact .inl (hstep.idle (.inl h))
            · rcases List.mem_cons.mp hm' with rfl | hm'
              · exact .inl (hstep.idle (.inr ⟨m', List.mem_cons_self, h⟩))
              · exact .inr ⟨m', hm', h⟩
          · rcases h with h | ⟨m', hm', h⟩
            · exact .inl (hstep.reply (.inl h))
            · rcases List.mem_cons.mp hm' with rfl | hm'
              · exact .inl (hstep.reply (.inr ⟨m', List.mem_cons_self, h⟩))
              · exact .inr ⟨m', hm', h⟩
  rcases hrun ms {} (.inl rfl) with hfinished | ⟨g', -, hhalf⟩
  · exact hfinished
  · rcases hhalf.half with h | h
    · exact absurd (h.symm.trans (hhalf.idle (.inr hidle))) Bool.false_ne_true
    · exact absurd h (hhalf.reply (.inr hreply))

theorem run_log (cfg : ExecutionQueue.Config) (es es' : List ExecutionQueue.Event) :
    (ExecutionQueue.run cfg es).log <+: (ExecutionQueue.run cfg (es ++ es')).log := by
  induction es' using List.reverseRecOn with
  | nil => rw [List.append_nil]
  | append_singleton es' e ih =>
    rw [← List.append_assoc, ExecutionQueue.run_snoc]
    exact ih.trans (ExecutionQueue.step_log _ e)

theorem events_append (log log' : List Action) : events (log ++ log') = events log ++ events log' :=
  List.filterMap_append

theorem executions_resolve (hids : ExecutionQueue.FreshIds cfg.queue) {a b c : List Action}
    {sending : Action} {x : ExecutionQueue.QueuedExecution} {msgId : String}
    (hnew : .sent x msgId ∉ (queueAt cfg a).log)
    (hsent : .sent x msgId ∈ (queueAt cfg (a ++ [sending])).log)
    (hes : ∀ es e, es ++ [e] <+: events b → ¬ ExecutionQueue.Disturbs
      (ExecutionQueue.run cfg.queue (events (a ++ [sending]) ++ es)) x.ticket e)
    (hreply : ∃ m ∈ ExecutionQueue.messagesOf msgId (events b), m.msgType = .executeReply)
    (hidle : ∃ m ∈ ExecutionQueue.messagesOf msgId (events b), m.isIdle = true) :
    ∃ result, (queueAt cfg (a ++ sending :: (b ++ c))).settlementsOf x.ticket =
      [.resolved result] := by
  have hevents : events (a ++ [sending]) = events a ++ (sending.event?).toList := by
    rw [events_append, events, events]
    cases h : sending.event? <;> simp [h]
  cases hevent : sending.event? with
  | none =>
    -- nothing was sent then
    rw [hevent, Option.toList_none, List.append_nil] at hevents
    rw [queueAt, hevents] at hsent
    exact absurd hsent hnew
  | some e =>
    rw [hevent, Option.toList_some] at hevents
    rw [queueAt, hevents] at hsent
    rw [hevents] at hes
    obtain ⟨result, hresult⟩ := finished_of_messages hreply hidle
    have hfollows := (ExecutionQueue.follows_run hids hsent
      (ExecutionQueue.follows_sent hnew hsent) hes).2
    rw [hresult] at hfollows
    have hall : events (a ++ sending :: (b ++ c)) = events a ++ [e] ++ events b ++ events c := by
      rw [List.append_cons, events_append, events_append b, hevents, ← List.append_assoc]
    refine ⟨result, ExecutionQueue.settlementsOf_eq (ExecutionQueue.ledger_run _ _).settled_nodup ?_⟩
    rw [queueAt, hall]
    exact (run_log _ _ _).subset hfollows

end Executions

/-! ## What the client does -/

structure Client.Inv (cfg : Config) (c : Client) : Prop where
  ordered : Ordered cfg c.lines c.microtasks c.log
  answering : Answering c.pendingRequests c.log
  queue : c.queue = queueAt cfg c.log
  stopped : c.stopped = true → .stopped ∈ c.log

theorem queueAt_none (ha : a.event? = none) : queueAt cfg (log ++ [a]) = queueAt cfg log := by
  rw [queueAt, events_append, queueAt]
  simp [events, ha]

theorem queueAt_some {e : ExecutionQueue.Event} (ha : a.event? = some e) :
    queueAt cfg (log ++ [a]) = ExecutionQueue.step cfg.queue (queueAt cfg log) e := by
  have hevents : events (log ++ [a]) = events log ++ [e] := by
    rw [events_append]
    simp [events, ha]
  rw [queueAt, hevents, ExecutionQueue.run_snoc, queueAt]

namespace Client.Inv

variable {c : Client}

theorem init : Client.Inv cfg {} where
  ordered := {
    fair := Turns.fair_nil
    waiting := fun j hj => absurd hj List.not_mem_nil
    logged := fun x hx => absurd hx List.not_mem_nil
    behind := fun x hx => absurd hx List.not_mem_nil
    done := fun k t h => by cases h
    in_order := .nil
    none_passed := fun pre a x post h => by cases pre <;> cases h }
  answering := {
    pending := fun a id r b h => by cases a <;> cases h
    answered := fun a id r b i m c h => by cases a <;> cases h }
  queue := rfl
  stopped h := by cases h

theorem settle (h : c.Inv cfg) (id : String) (how : Settlement) : (c.settle id how).Inv cfg where
  ordered := h.ordered.quiet rfl
  answering := h.answering.settled id how
  queue := h.queue.trans (queueAt_none rfl).symm
  stopped hs := List.mem_append_left _ (h.stopped hs)

theorem rejectPendingRequests (h : c.Inv cfg) (error : String) :
    (c.rejectPendingRequests error).Inv cfg := by
  unfold Client.rejectPendingRequests
  generalize c.pendingRequests = requests
  induction requests generalizing c with
  | nil => exact h
  | cons request requests ih => exact ih (h.settle request.1 (.rejected error))

theorem called (h : c.Inv cfg) (e : ExecutionQueue.Event) : (c.run cfg (.called e) e).Inv cfg where
  ordered := h.ordered.quiet rfl
  answering := h.answering.note (fun _ _ heq => by cases heq) fun _ _ heq => by cases heq
  queue := by
    rw [Client.run, queueAt_some rfl, h.queue]
  stopped hs := List.mem_append_left _ (h.stopped hs)

theorem execute (h : c.Inv cfg) (code : String) (options : ExecutionQueue.ExecutionOptions) :
    (c.execute cfg code options).Inv cfg := by
  unfold Client.execute
  split
  · exact h
  · exact h.called _

theorem request (h : c.Inv cfg) (id : String) (replyType : MsgType) :
    (c.request id replyType).Inv cfg where
  ordered := h.ordered.quiet rfl
  answering := h.answering.asked id replyType
  queue := h.queue.trans (queueAt_none rfl).symm
  stopped hs := List.mem_append_left _ (h.stopped hs)

theorem requestTimeout (h : c.Inv cfg) (id : String) : (c.requestTimeout id).Inv cfg := by
  unfold Client.requestTimeout
  split
  · exact h.settle id _
  · exact h

theorem stop (h : c.Inv cfg) : (c.stop cfg).Inv cfg := by
  unfold Client.stop
  split
  · exact h
  · have hstopped : Client.Inv cfg ({ c with stopped := true }.run cfg .stopped .clear) := {
      ordered := h.ordered.quiet rfl
      answering := h.answering.note (fun _ _ heq => by cases heq) fun _ _ heq => by cases heq
      queue := by
        rw [Client.run, queueAt_some rfl, h.queue]
      stopped := fun _ => List.mem_append_right _ List.mem_cons_self }
    exact hstopped.rejectPendingRequests STOPPED_MESSAGE

/-- The next microtask: at most one message is routed. -/
theorem microtask (h : c.Inv cfg) : (c.microtask cfg).Inv cfg := by
  unfold Client.microtask
  dsimp only
  split
  · next index message hturn =>
    have hordered := h.ordered.message hturn
    have hqueue : ExecutionQueue.step cfg.queue c.queue (.message message) =
        queueAt cfg (c.log ++ [.message index message]) := by
      rw [queueAt_some rfl, h.queue]
    have hstopped : c.stopped = true → .stopped ∈ c.log ++ [.message index message] :=
      fun hs => List.mem_append_left _ (h.stopped hs)
    unfold Client.emit
    dsimp only
    split
    · next replyType hget =>
      have hget : c.pendingRequests.get message.parentMsgId = some replyType := hget
      split
      · exact ⟨hordered.quiet rfl, h.answering.replied, hqueue.trans (queueAt_none rfl).symm,
          fun hs => List.mem_append_left _ (hstopped hs)⟩
      · next hne =>
        refine ⟨hordered, h.answering.note (fun _ _ heq => by cases heq) ?_, hqueue, hstopped⟩
        rintro _ _ heq
        obtain ⟨-, rfl⟩ := Action.message.inj heq
        rw [hget]
        exact fun hsome => hne (Option.some.inj hsome).symm
    · next hget =>
      have hget : c.pendingRequests.get message.parentMsgId = none := hget
      refine ⟨hordered, h.answering.note (fun _ _ heq => by cases heq) ?_, hqueue, hstopped⟩
      rintro _ _ heq
      obtain ⟨-, rfl⟩ := Action.message.inj heq
      rw [hget]
      exact fun hsome => by cases hsome
  · next hturn =>
    exact ⟨h.ordered.turn hturn, h.answering, h.queue, h.stopped⟩

/-- **A line**, with nothing waiting where a `kernelExit` has an effect. -/
theorem handleFrame (h : c.Inv cfg) (text : Text)
    (hready : ∀ reason, cfg.decode text = .kernelExit reason → c.stopped = false →
      c.microtasks = []) : (c.handleFrame cfg text).Inv cfg := by
  unfold Client.handleFrame
  dsimp only
  have hline : Done c.log c.lines.length (cfg.decode text) →
      Client.Inv cfg { c with lines := c.lines ++ [text] } := fun hdone =>
    ⟨h.ordered.line hdone, h.answering, h.queue, h.stopped⟩
  split
  · next message htext => exact ⟨h.ordered.start htext, h.answering, h.queue, h.stopped⟩
  · next reason htext =>
    split
    · next hstopped =>
      refine hline ?_
      rw [htext]
      exact .inr (h.stopped hstopped)
    · next hgoing =>
      have hnone := hready reason htext (eq_false_of_ne_true hgoing)
      have hordered := h.ordered
      rw [hnone] at hordered
      refine rejectPendingRequests ⟨?_, ?_, ?_, ?_⟩ _
      · show Ordered cfg _ c.microtasks _
        rw [hnone]
        exact hordered.exit htext
      · exact h.answering.note (fun _ _ heq => by cases heq) fun _ _ heq => by cases heq
      · rw [Client.run, queueAt_some rfl]
        exact congrArg (ExecutionQueue.step cfg.queue · .clear) h.queue
      · exact fun hs => List.mem_append_left _ (h.stopped hs)
  · next id error htext =>
    have hsame := hline (by rw [htext]; trivial)
    split
    · exact hsame.settle id _
    · exact hsame
  all_goals
    next htext =>
      refine hline ?_
      rw [htext]
      trivial

end Client.Inv

end Jovian.FrameOrder
