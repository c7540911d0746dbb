import Jovian.Lib.InsertionMap
import Mathlib.Data.List.Forall2
import Mathlib.Data.List.Induction
import Mathlib.Algebra.GroupWithZero.Nat

/-!
# History — what a session remembers of its executions

`recordExecutionHistory` files each message under the execution it belongs to: a list of entries, an
index from message ids to them, and beside each entry the stream characters it holds. Entries beyond
a number of them go, oldest first, and so does an entry's stream text beyond a number of characters.

* **`history_bounded`** — the entries are the newest executions, each with all of its messages but
  input requests and the oldest of its stream messages.
-/

namespace Jovian.History

/-! ## Messages -/

/-- The code units of a string. -/
abbrev Text := List UInt16

structure Content where
  code : Option String := none
  executionCount : Option Int := none
  /-- `none` where it is not a string. -/
  text : Option Text := none
deriving DecidableEq

structure JupyterMessage where
  msgType : String
  parentMsgId : String
  content : Content := {}
deriving DecidableEq

def streamLength (m : JupyterMessage) : Nat :=
  match m.content.text with
  | some text => text.length
  | none => 0

def isStream (m : JupyterMessage) : Bool := m.msgType = "stream"

/-- The characters of the stream messages. -/
def chars (messages : List JupyterMessage) : Nat :=
  ((messages.filter isStream).map streamLength).sum

/-! ## The session -/

def MAX_EXECUTION_HISTORY_ENTRIES : Nat := 200

def MAX_HISTORY_STREAM_CHARS : Nat := 500000

structure ExecutionHistoryEntry where
  /-- Which of the session's entries it is. -/
  id : Nat
  code : String
  executionCount : Option Int
  messages : List JupyterMessage := []
  truncated : Bool := false

structure Session where
  executionHistory : List ExecutionHistoryEntry := []
  executionHistoryByMsgId : InsertionMap String Nat := []
  /-- By entry, as `WeakMap` does. -/
  historyStreamChars : Nat → Option Nat := fun _ => none
  /-- How many entries it has made. -/
  made : Nat := 0

/-- An entry's messages and the characters recorded of them. -/
structure Streams where
  total : Nat
  messages : List JupyterMessage
  truncated : Bool

/-- The loop of `boundStreamHistory`. -/
def boundStreams (s : Streams) : Streams :=
  if MAX_HISTORY_STREAM_CHARS < s.total then
    match _hindex : s.messages.findIdx? isStream with
    | none => s
    | some index =>
      -- the message that was just added stays
      if index + 1 = s.messages.length then s
      else boundStreams
        { total := s.total - (s.messages[index]?.map streamLength).getD 0
          messages := s.messages.eraseIdx index
          truncated := true }
  else s
termination_by s.messages.length
decreasing_by
  have hlt : index < s.messages.length := (List.findIdx?_eq_some_iff_getElem.mp _hindex).1
  rw [List.length_eraseIdx_of_lt hlt]
  omega

namespace Session

variable (s : Session)

/-- The entry is changed where it is. -/
def modify (id : Nat) (f : ExecutionHistoryEntry → ExecutionHistoryEntry) : Session :=
  { s with executionHistory := s.executionHistory.map fun e => if e.id = id then f e else e }

def boundStreamHistory (entry : ExecutionHistoryEntry) (added : Nat) : Session :=
  let bounded := boundStreams
    { total := (s.historyStreamChars entry.id).getD 0 + added
      messages := entry.messages
      truncated := entry.truncated }
  { s.modify entry.id fun e =>
      { e with messages := bounded.messages, truncated := bounded.truncated } with
    historyStreamChars := fun id =>
      if id = entry.id then some bounded.total else s.historyStreamChars id }

/-- The oldest entry goes, and its message id with it. -/
def evict : Session :=
  match s.executionHistory with
  | [] => s
  | removed :: rest =>
    { s with
      executionHistory := rest
      executionHistoryByMsgId :=
        match s.executionHistoryByMsgId.find? (·.2 = removed.id) with
        | none => s.executionHistoryByMsgId
        | some (msgId, _) => s.executionHistoryByMsgId.delete msgId }

def recordExecutionHistory (m : JupyterMessage) : Session :=
  if m.msgType = "execute_input" then
    let entry : ExecutionHistoryEntry :=
      { id := s.made
        code := m.content.code.getD ""
        executionCount := m.content.executionCount }
    let pushed : Session :=
      { s with
        executionHistory := s.executionHistory ++ [entry]
        executionHistoryByMsgId := s.executionHistoryByMsgId.set m.parentMsgId entry.id
        made := s.made + 1 }
    if MAX_EXECUTION_HISTORY_ENTRIES < pushed.executionHistory.length then pushed.evict else pushed
  -- answered long since, or what it blocked is gone
  else if m.msgType = "input_request" then s
  else
    match s.executionHistoryByMsgId.get m.parentMsgId with
    | none => s
    | some id =>
      match s.executionHistory.find? (·.id = id) with
      | none => s
      | some entry =>
        let entry := { entry with messages := entry.messages ++ [m] }
        let pushed := s.modify id fun _ => entry
        if isStream m then pushed.boundStreamHistory entry (streamLength m) else pushed

end Session

/-- `getHistory()` after these messages is its `executionHistory`. -/
def record (messages : List JupyterMessage) : Session :=
  messages.foldl Session.recordExecutionHistory {}

/-! ## All executions, with all of their messages -/

structure Execution where
  id : Nat
  parentMsgId : String
  code : String
  executionCount : Option Int
  received : List JupyterMessage := []

/-- A message is the newest execution's of its parent; the newest execution comes first. -/
def receive (m : JupyterMessage) : List Execution → List Execution
  | [] => []
  | x :: rest =>
    if x.parentMsgId = m.parentMsgId then { x with received := x.received ++ [m] } :: rest
    else x :: receive m rest

def happen (xs : List Execution) (m : JupyterMessage) : List Execution :=
  if m.msgType = "execute_input" then
    { id := xs.length
      parentMsgId := m.parentMsgId
      code := m.content.code.getD ""
      executionCount := m.content.executionCount } :: xs
  else receive m xs

def executions (messages : List JupyterMessage) : List Execution := messages.foldl happen []

/-- What an entry with so many recorded characters keeps of an execution. -/
structure Keeps (x : Execution) (e : ExecutionHistoryEntry) (recorded : Nat) : Prop where
  id : e.id = x.id
  code : e.code = x.code
  executionCount : e.executionCount = x.executionCount
  /-- In the order they came. -/
  sublist : e.messages.Sublist x.received
  others : e.messages.filter (!isStream ·) =
    x.received.filter fun m => !isStream m && m.msgType ≠ "input_request"
  streams : e.messages.filter isStream <:+ x.received.filter isStream
  counted : recorded = chars e.messages
  bounded : recorded ≤ MAX_HISTORY_STREAM_CHARS ∨ (e.messages.filter isStream).length = 1
  truncated : e.truncated = true ↔ e.messages.filter isStream ≠ x.received.filter isStream

def Session.recorded (s : Session) (e : ExecutionHistoryEntry) : Nat :=
  (s.historyStreamChars e.id).getD 0

structure Bounded (xs : List Execution) (s : Session) : Prop where
  length : s.executionHistory.length ≤ MAX_EXECUTION_HISTORY_ENTRIES
  newest : List.Forall₂ (fun x e => Keeps x e (s.recorded e))
    (xs.take MAX_EXECUTION_HISTORY_ENTRIES).reverse s.executionHistory
  index : ∀ p ∈ s.executionHistoryByMsgId, ∃ e ∈ s.executionHistory, e.id = p.2

/-! ## The stream characters of an entry -/

attribute [grind =] receive happen chars

theorem chars_append (as bs : List JupyterMessage) : chars (as ++ bs) = chars as + chars bs := by
  simp [chars]

theorem chars_of_not_stream {m : JupyterMessage} (h : isStream m = false) : chars [m] = 0 := by
  simp [chars, h]

theorem chars_of_stream {m : JupyterMessage} (h : isStream m = true) :
    chars [m] = streamLength m := by
  simp [chars, h]

/-- The first stream message, and what is around it. -/
theorem split_of_findIdx {messages : List JupyterMessage} {index : Nat}
    (h : messages.findIdx? isStream = some index) : ∃ pre x post,
      messages = pre ++ x :: post ∧ pre.length = index ∧ isStream x = true ∧
        pre.filter isStream = [] := by
  obtain ⟨hlt, hx, hbefore⟩ := List.findIdx?_eq_some_iff_getElem.mp h
  refine ⟨messages.take index, messages[index], messages.drop (index + 1), ?_, ?_, hx, ?_⟩
  · rw [List.getElem_cons_drop, List.take_append_drop]
  · rw [List.length_take, Nat.min_eq_left (Nat.le_of_lt hlt)]
  · rw [List.filter_eq_nil_iff]
    intro m hm
    obtain ⟨j, hj, rfl⟩ := List.mem_take_iff_getElem.mp hm
    exact hbefore j (by omega)

/-- What the loop leaves of an entry. -/
structure Trims (s b : Streams) : Prop where
  sublist : b.messages.Sublist s.messages
  others : b.messages.filter (!isStream ·) = s.messages.filter (!isStream ·)
  streams : b.messages.filter isStream <:+ s.messages.filter isStream
  counted : b.total = chars b.messages
  bounded : b.total ≤ MAX_HISTORY_STREAM_CHARS ∨ (b.messages.filter isStream).length = 1
  truncated : b.truncated = true ↔
    s.truncated = true ∨ b.messages.filter isStream ≠ s.messages.filter isStream

theorem Trims.stop {s : Streams} (hcounted : s.total = chars s.messages)
    (hbounded : s.total ≤ MAX_HISTORY_STREAM_CHARS ∨ (s.messages.filter isStream).length = 1) :
    Trims s s :=
  ⟨.refl _, rfl, List.suffix_rfl, hcounted, hbounded, by simp⟩

/-- The last message is the stream message that was added. -/
theorem trims_boundStreams (s : Streams) (hcounted : s.total = chars s.messages)
    (hlast : ∃ init m, s.messages = init ++ [m] ∧ isStream m = true) : Trims s (boundStreams s) := by
  induction s using boundStreams.induct with
  | case1 s hmore hnone =>
    obtain ⟨init, m, hmessages, hm⟩ := hlast
    rw [List.findIdx?_eq_none_iff] at hnone
    have hfalse := hnone m (by rw [hmessages]; simp)
    exact absurd (hfalse.symm.trans hm) Bool.false_ne_true
  | case2 s hmore index hindex hend =>
    rw [boundStreams, if_pos hmore]
    split
    · rename_i hnone
      cases hindex.symm.trans hnone
    · rename_i index' hindex'
      obtain rfl : index = index' := Option.some.inj (hindex.symm.trans hindex')
      rw [if_pos hend]
      obtain ⟨pre, x, post, hmessages, hlength, hx, hpre⟩ := split_of_findIdx hindex
      obtain rfl : post = [] := by
        rw [hmessages, List.length_append, List.length_cons] at hend
        exact List.length_eq_zero_iff.mp (by omega)
      refine .stop hcounted (.inr ?_)
      rw [hmessages, List.filter_append, hpre]
      simp [hx]
  | case3 s hmore index hindex hend ih =>
    rw [boundStreams, if_pos hmore]
    split
    · rename_i hnone
      cases hindex.symm.trans hnone
    · rename_i index' hindex'
      obtain rfl : index = index' := Option.some.inj (hindex.symm.trans hindex')
      rw [if_neg hend]
      obtain ⟨pre, x, post, hmessages, hlength, hx, hpre⟩ := split_of_findIdx hindex
      have hx' : s.messages[index]? = some x := by
        rw [hmessages, ← hlength, List.getElem?_append_right (Nat.le_refl _), Nat.sub_self]
        rfl
      have herase : s.messages.eraseIdx index = pre ++ post := by
        rw [hmessages, ← hlength, List.eraseIdx_append_of_length_le (Nat.le_refl _), Nat.sub_self]
        rfl
      have hchars : chars s.messages = streamLength x + chars (pre ++ post) := by
        rw [hmessages, List.append_cons, chars_append, chars_append, chars_of_stream hx,
          chars_append]
        omega
      obtain ⟨init, m, hinit, hm⟩ := hlast
      have hpost : post ≠ [] := by
        rintro rfl
        rw [hmessages, List.length_append, List.length_singleton] at hend
        omega
      have hstep := ih (by rw [hx', herase, hcounted, hchars]; simp) ?_
      · rw [hx', herase] at hstep ⊢
        have hfilter : s.messages.filter isStream = x :: (pre ++ post).filter isStream := by
          rw [hmessages, List.filter_append, List.filter_append, hpre, List.filter_cons_of_pos hx]
          rfl
        refine ⟨hstep.sublist.trans ?_, hstep.others.trans ?_, hstep.streams.trans ?_,
          hstep.counted, hstep.bounded, ?_⟩
        · rw [hmessages]
          exact List.Sublist.append_left (List.sublist_cons_self x post) pre
        · rw [hmessages, List.filter_append, List.filter_append,
            List.filter_cons_of_neg (by simp [hx])]
        · rw [hfilter]
          exact List.suffix_cons _ _
        · -- a message was dropped, for good
          refine iff_of_true (hstep.truncated.mpr (.inl rfl)) (.inr fun heq => ?_)
          have hle := hstep.streams.length_le
          rw [heq, hfilter, List.length_cons] at hle
          exact absurd hle (Nat.not_succ_le_self _)
      · obtain ⟨post', m', rfl⟩ := List.eq_nil_or_concat' post |>.resolve_left hpost
        refine ⟨pre ++ post', m', by rw [herase, List.append_assoc], ?_⟩
        have hends : s.messages = (pre ++ x :: post') ++ [m'] := by
          rw [hmessages]
          simp
        obtain rfl : m = m' := by
          have := List.append_inj' (hinit.symm.trans hends) rfl
          exact List.singleton_inj.mp this.2
        exact hm
  | case4 s hless =>
    rw [boundStreams, if_neg hless]
    exact .stop hcounted (.inl (Nat.le_of_not_lt hless))

/-! ## The entry of a message -/

variable {xs : List Execution} {s : Session} {m : JupyterMessage}

theorem receive_take (n : Nat) : (receive m xs).take n = receive m (xs.take n) := by
  induction xs generalizing n with
  | nil => simp [receive]
  | cons x xs ih =>
    cases n with
    | zero => rfl
    | succ n =>
      rw [List.take_succ_cons, receive, receive]
      split
      · rfl
      · rw [List.take_succ_cons, ih]

theorem receive_of_none (h : xs.find? (·.parentMsgId = m.parentMsgId) = none) :
    receive m xs = xs := by
  induction xs with
  | nil => rfl
  | cons x xs ih =>
    rw [List.find?_cons] at h
    split at h
    · cases h
    · rename_i hne
      rw [receive, if_neg (of_decide_eq_false hne), ih h]

theorem receive_ids : (receive m xs).map Execution.id = xs.map Execution.id := by
  induction xs with
  | nil => rfl
  | cons x xs ih =>
    rw [receive]
    split
    · rfl
    · rw [List.map_cons, List.map_cons, ih]

theorem receive_find (parent : String) :
    ((receive m xs).find? (·.parentMsgId = parent)).map Execution.id =
      (xs.find? (·.parentMsgId = parent)).map Execution.id := by
  induction xs with
  | nil => rfl
  | cons x xs ih =>
    rw [receive]
    split
    · by_cases hparent : x.parentMsgId = parent <;> simp [hparent]
    · by_cases hparent : x.parentMsgId = parent
      · simp [hparent]
      · simpa [List.find?_cons, hparent] using ih

theorem receive_before (h : ∀ x ∈ xs, x.id < xs.length) :
    ∀ x ∈ receive m xs, x.id < (receive m xs).length := by
  intro x hx
  have hmem : x.id ∈ xs.map Execution.id := receive_ids ▸ List.mem_map_of_mem hx
  obtain ⟨y, hy, heq⟩ := List.mem_map.mp hmem
  rw [← heq, ← List.length_map Execution.id, receive_ids, List.length_map]
  exact h y hy

/-- The newest `n` executions are held, and what the index has is of them. -/
structure Inv (n : Nat) (xs : List Execution) (s : Session) : Prop where
  made : s.made = xs.length
  nodup : (xs.map Execution.id).Nodup
  before : ∀ x ∈ xs, x.id < xs.length
  newest : List.Forall₂ (fun x e => Keeps x e (s.recorded e)) (xs.take n) s.executionHistory.reverse
  unique : s.executionHistoryByMsgId.Unique
  index : ∀ parent, s.executionHistoryByMsgId.get parent =
    ((xs.take n).find? (·.parentMsgId = parent)).map Execution.id
  unrecorded : ∀ id, s.made ≤ id → s.historyStreamChars id = none

namespace Inv

variable {n : Nat}

theorem init : Inv n [] {} where
  made := rfl
  nodup := List.nodup_nil
  before _ hx := absurd hx List.not_mem_nil
  newest := by
    rw [List.take_nil]
    exact .nil
  unique := List.nodup_nil
  index _ := by
    rw [List.take_nil]
    rfl
  unrecorded _ _ := rfl

theorem length (h : Inv n xs s) : s.executionHistory.length = min n xs.length := by
  rw [← List.length_reverse, ← h.newest.length_eq, List.length_take]

/-- A new execution, for now beside the others. -/
theorem push (h : Inv n xs s) (m : JupyterMessage) :
    Inv (n + 1)
      ({ id := xs.length, parentMsgId := m.parentMsgId, code := m.content.code.getD ""
         executionCount := m.content.executionCount } :: xs)
      { s with
        executionHistory := s.executionHistory ++
          [{ id := s.made, code := m.content.code.getD ""
             executionCount := m.content.executionCount }]
        executionHistoryByMsgId := s.executionHistoryByMsgId.set m.parentMsgId s.made
        made := s.made + 1 } where
  made := by
    rw [h.made]
    rfl
  nodup := by
    rw [List.map_cons, List.nodup_cons]
    refine ⟨fun hmem => ?_, h.nodup⟩
    obtain ⟨x, hx, hid⟩ := List.mem_map.mp hmem
    exact absurd (h.before x hx) (hid ▸ Nat.lt_irrefl _)
  before x hx := by
    rcases List.mem_cons.mp hx with rfl | hx
    · exact Nat.lt_succ_self _
    · exact Nat.lt_succ_of_lt (h.before x hx)
  newest := by
    rw [List.take_succ_cons, List.reverse_append]
    refine .cons ⟨h.made, rfl, rfl, .refl _, rfl, List.suffix_rfl, ?_, ?_, by simp⟩ h.newest
    · exact congrArg (Option.getD · 0) (h.unrecorded s.made (Nat.le_refl _))
    · left
      have hnone : s.historyStreamChars s.made = none := h.unrecorded s.made (Nat.le_refl _)
      simp [Session.recorded, hnone]
  unique := h.unique.set _ _
  index parent := by
    rw [List.take_succ_cons, List.find?_cons]
    by_cases hparent : parent = m.parentMsgId
    · subst hparent
      simp [InsertionMap.get_set_self, h.made]
    · have hne : ¬ m.parentMsgId = parent := fun heq => hparent heq.symm
      simp only [InsertionMap.get_set_ne _ hparent, hne, decide_false]
      exact h.index parent
  unrecorded id hid := h.unrecorded id (Nat.le_of_succ_le hid)

theorem fewer (h : Inv (n + 1) xs s) (hlength : s.executionHistory.length ≤ n) : Inv n xs s := by
  have hxs : xs.length ≤ n := by
    have := h.length
    omega
  have htake : xs.take (n + 1) = xs.take n := by
    rw [List.take_of_length_le hxs, List.take_of_length_le (Nat.le_succ_of_le hxs)]
  exact ⟨h.made, h.nodup, h.before, htake ▸ h.newest, h.unique, htake ▸ h.index, h.unrecorded⟩

/-- The oldest execution that is held, and its entry. -/
theorem oldest (h : Inv (n + 1) xs s) {removed : ExecutionHistoryEntry}
    {rest : List ExecutionHistoryEntry} (hhistory : s.executionHistory = removed :: rest)
    (hlength : rest.length = n) : ∃ y, xs.take (n + 1) = xs.take n ++ [y] ∧ y.id = removed.id ∧
      List.Forall₂ (fun x e => Keeps x e (s.recorded e)) (xs.take n) rest.reverse := by
  have hnewest := h.newest
  rw [hhistory, List.reverse_cons] at hnewest
  have hn : n < xs.length := by
    have := h.length
    rw [hhistory, List.length_cons] at this
    omega
  have htake : xs.take (n + 1) = xs.take n ++ [xs[n]] := List.take_succ_eq_append_getElem hn
  rw [htake] at hnewest
  have hrest := List.forall₂_take_append _ _ _ hnewest
  have hlast := List.forall₂_drop_append _ _ _ hnewest
  have hlen : rest.reverse.length = (xs.take n).length := by
    rw [List.length_reverse, List.length_take, hlength, Nat.min_eq_left (Nat.le_of_lt hn)]
  rw [hlen, List.take_left] at hrest
  rw [hlen, List.drop_left] at hlast
  cases hlast with
  | cons hkeeps _ => exact ⟨xs[n], htake, hkeeps.id.symm, hrest⟩

theorem get_evict (h : Inv (n + 1) xs s) {removed : ExecutionHistoryEntry}
    {rest : List ExecutionHistoryEntry} (hhistory : s.executionHistory = removed :: rest)
    (hlength : rest.length = n) (parent : String) :
    s.evict.executionHistoryByMsgId.get parent =
      ((xs.take n).find? (·.parentMsgId = parent)).map Execution.id := by
  obtain ⟨y, htake, hid, -⟩ := h.oldest hhistory hlength
  have hnodup : y.id ∉ (xs.take n).map Execution.id := by
    have hn := h.nodup.sublist ((List.take_sublist (n + 1) xs).map Execution.id)
    rw [htake, List.map_append] at hn
    exact fun hmem => (List.nodup_append.mp hn).2.2 _ hmem _ List.mem_cons_self rfl
  have hold := h.index parent
  rw [htake, List.find?_append] at hold
  simp only [Session.evict, hhistory]
  cases hfind : (xs.take n).find? (·.parentMsgId = parent) with
  | some x =>
    -- a newer execution has this id
    rw [hfind, Option.some_or] at hold
    have hx : x.id ≠ removed.id := fun heq =>
      hnodup (List.mem_map.mpr ⟨x, List.mem_of_find?_eq_some hfind, heq.trans hid.symm⟩)
    split
    · exact hold
    · rename_i msgId id hpair
      have hvalue : id = removed.id := by simpa using List.find?_some hpair
      have hget := InsertionMap.get_of_mem h.unique (List.mem_of_find?_eq_some hpair)
      rw [InsertionMap.get_delete_ne]
      · exact hold
      · rintro rfl
        exact hx (Option.some.inj (hold.symm.trans hget) |>.trans hvalue)
  | none =>
    rw [hfind, Option.none_or] at hold
    split
    · rename_i hpair
      rw [hold]
      by_cases hparent : y.parentMsgId = parent
      · -- its pair would have been found
        have hget : s.executionHistoryByMsgId.get parent = some y.id := by
          rw [hold]
          simp [hparent]
        have hmem := InsertionMap.mem_of_get hget
        exact absurd (List.find?_eq_none.mp hpair _ hmem) (by simp [hid])
      · simp [hparent]
    · rename_i msgId id hpair
      have hvalue : id = removed.id := by simpa using List.find?_some hpair
      have hget := InsertionMap.get_of_mem h.unique (List.mem_of_find?_eq_some hpair)
      by_cases hmsg : parent = msgId
      · subst hmsg
        rw [InsertionMap.get, Option.map_none, Option.map_eq_none_iff, List.find?_eq_none]
        intro p hp
        have hne := (InsertionMap.mem_delete.mp hp).2
        simpa using hne
      · rw [InsertionMap.get_delete_ne _ hmsg, hold]
        by_cases hparent : y.parentMsgId = parent
        · -- the pair found is of another id, and of no execution that is held
          have hindex := h.index msgId
          rw [hget, htake, List.find?_append] at hindex
          have hother : ¬ y.parentMsgId = msgId := fun heq => hmsg (hparent.symm.trans heq)
          cases hnewer : (xs.take n).find? (·.parentMsgId = msgId) with
          | none => simp [hnewer, hother] at hindex
          | some x =>
            rw [hnewer, Option.some_or, Option.map_some, Option.some.injEq] at hindex
            exact absurd (List.mem_map.mpr ⟨x, List.mem_of_find?_eq_some hnewer,
              hindex.symm.trans (hvalue.trans hid.symm)⟩) hnodup
        · simp [hparent]

theorem evict (h : Inv (n + 1) xs s) (hmore : n < s.executionHistory.length) :
    Inv n xs s.evict := by
  cases hhistory : s.executionHistory with
  | nil =>
    rw [hhistory] at hmore
    exact absurd hmore (Nat.not_lt_zero n)
  | cons removed rest =>
    have hlength : rest.length = n := by
      have := h.length
      rw [hhistory, List.length_cons] at this hmore
      omega
    obtain ⟨y, -, -, hnewest⟩ := h.oldest hhistory hlength
    have hevict : s.evict = { s.evict with
        executionHistory := rest, historyStreamChars := s.historyStreamChars, made := s.made } := by
      simp [Session.evict, hhistory]
    have hunique : s.evict.executionHistoryByMsgId.Unique := by
      simp only [Session.evict, hhistory]
      split
      · exact h.unique
      · exact h.unique.delete _
    have hindex := h.get_evict hhistory hlength
    rw [hevict]
    exact ⟨h.made, h.nodup, h.before, hnewest, hunique, hindex, h.unrecorded⟩

/-- **A new execution**, and the oldest one goes where they are too many. -/
theorem begins (h : Inv MAX_EXECUTION_HISTORY_ENTRIES xs s)
    (hm : m.msgType = "execute_input") :
    Inv MAX_EXECUTION_HISTORY_ENTRIES (happen xs m) (s.recordExecutionHistory m) := by
  rw [happen, if_pos hm, Session.recordExecutionHistory, if_pos hm]
  dsimp only
  split
  · rename_i hmore
    exact (h.push m).evict hmore
  · rename_i hless
    exact (h.push m).fewer (Nat.le_of_not_lt hless)

end Inv

/-! ## A message of an execution that is held -/

/-- What `recordExecutionHistory` makes of the entry, with its recorded characters. -/
def file (m : JupyterMessage) (recorded : Nat) (e : ExecutionHistoryEntry) :
    ExecutionHistoryEntry × Nat :=
  if isStream m then
    let bounded := boundStreams
      { total := recorded + streamLength m, messages := e.messages ++ [m], truncated := e.truncated }
    ({ e with messages := bounded.messages, truncated := bounded.truncated }, bounded.total)
  else ({ e with messages := e.messages ++ [m] }, recorded)

theorem file_id (m : JupyterMessage) (recorded : Nat) (e : ExecutionHistoryEntry) :
    (file m recorded e).1.id = e.id := by
  unfold file
  split <;> rfl

theorem Keeps.file {x : Execution} {e : ExecutionHistoryEntry} {recorded : Nat}
    (h : Keeps x e recorded) (hm : m.msgType ≠ "input_request") :
    Keeps { x with received := x.received ++ [m] } (file m recorded e).1 (file m recorded e).2 := by
  unfold History.file
  have hkept : (x.received ++ [m]).filter (fun m => !isStream m && m.msgType ≠ "input_request") =
      (e.messages ++ [m]).filter (!isStream ·) := by
    rw [List.filter_append, List.filter_append, h.others]
    simp [List.filter_cons, hm]
  split
  · rename_i hstream
    have htrims := trims_boundStreams
      { total := recorded + streamLength m, messages := e.messages ++ [m], truncated := e.truncated }
      (by rw [h.counted, chars_append, chars_of_stream hstream]) ⟨e.messages, m, rfl, hstream⟩
    have hsuffix : (e.messages ++ [m]).filter isStream <:+ (x.received ++ [m]).filter isStream := by
      rw [List.filter_append, List.filter_append]
      exact List.suffix_append_self_iff.mpr h.streams
    refine ⟨h.id, h.code, h.executionCount, htrims.sublist.trans (h.sublist.append_right [m]),
      htrims.others.trans hkept.symm, htrims.streams.trans hsuffix, htrims.counted,
      htrims.bounded, htrims.truncated.trans ?_⟩
    dsimp only at htrims ⊢
    rw [List.filter_append, List.filter_append, h.truncated]
    by_cases hall : e.messages.filter isStream = x.received.filter isStream
    · simp [hall]
    · -- what had gone before does not come back
      refine iff_of_true (.inl hall) fun heq => hall ?_
      have hle := htrims.streams.length_le
      rw [heq, List.filter_append, List.length_append, List.length_append] at hle
      exact h.streams.eq_of_length_le (Nat.le_of_add_le_add_right hle)
  · rename_i hstream
    have hnone : isStream m = false := Bool.eq_false_iff.mpr hstream
    have hfilter : ∀ ms : List JupyterMessage,
        (ms ++ [m]).filter isStream = ms.filter isStream := by
      intro ms
      rw [List.filter_append, List.filter_cons_of_neg hstream, List.filter_nil, List.append_nil]
    refine ⟨h.id, h.code, h.executionCount, h.sublist.append_right [m], hkept.symm, ?_, ?_, ?_, ?_⟩
    · rw [hfilter, hfilter]
      exact h.streams
    · rw [h.counted, chars_append, chars_of_not_stream hnone, Nat.add_zero]
    · rw [hfilter]
      exact h.bounded
    · rw [hfilter, hfilter]
      exact h.truncated

/-- The entry of the execution a message is received by is changed, and no other. -/
theorem forall₂_receive {R R' : Execution → ExecutionHistoryEntry → Prop}
    {es : List ExecutionHistoryEntry} (h : List.Forall₂ R xs es)
    (hids : ∀ x e, R x e → e.id = x.id) (hnodup : (xs.map Execution.id).Nodup) {x : Execution}
    (hfind : xs.find? (·.parentMsgId = m.parentMsgId) = some x)
    {f : ExecutionHistoryEntry → ExecutionHistoryEntry}
    (hself : ∀ e ∈ es, R x e → R' { x with received := x.received ++ [m] } (f e))
    (hother : ∀ y e, y.id ≠ x.id → R y e → R' y e) :
    List.Forall₂ R' (receive m xs) (es.map fun e => if e.id = x.id then f e else e) := by
  induction h with
  | nil => cases hfind
  | @cons y e ys es hye hrest ih =>
    rw [List.map_cons, List.nodup_cons] at hnodup
    rw [receive, List.map_cons, hids y e hye]
    by_cases hparent : y.parentMsgId = m.parentMsgId
    · obtain rfl : y = x := by simpa [List.find?_cons, hparent] using hfind
      rw [if_pos hparent, if_pos rfl]
      refine .cons (hself e List.mem_cons_self hye) ?_
      -- the others are of other executions
      have hrest' : ∀ {ys es}, List.Forall₂ R ys es → y.id ∉ ys.map Execution.id →
          List.Forall₂ R' ys (es.map fun e => if e.id = y.id then f e else e) := by
        intro ys es h hnot
        induction h with
        | nil => exact .nil
        | @cons z e ys es hze _ ih =>
          rw [List.map_cons, List.mem_cons, not_or] at hnot
          rw [List.map_cons, hids z e hze, if_neg (Ne.symm hnot.1)]
          exact .cons (hother z e (Ne.symm hnot.1) hze) (ih hnot.2)
      exact hrest' hrest hnodup.1
    · have hfind' : ys.find? (·.parentMsgId = m.parentMsgId) = some x := by
        simpa [List.find?_cons, hparent] using hfind
      have hne : y.id ≠ x.id := fun heq =>
        hnodup.1 (List.mem_map.mpr ⟨x, List.mem_of_find?_eq_some hfind', heq.symm⟩)
      rw [if_neg hparent, if_neg hne]
      exact .cons (hother y e hne hye)
        (ih hnodup.2 hfind' fun e he => hself e (List.mem_cons_of_mem _ he))

theorem forall₂_kept {R : Execution → ExecutionHistoryEntry → Prop}
    {es : List ExecutionHistoryEntry} (h : List.Forall₂ R xs es)
    (hkept : ∀ x e, R x e → R { x with received := x.received ++ [m] } e) :
    List.Forall₂ R (receive m xs) es := by
  induction h with
  | nil => exact .nil
  | cons hxe hrest ih =>
    rw [receive]
    split
    · exact .cons (hkept _ _ hxe) hrest
    · exact .cons hxe ih

namespace Session

theorem modify_modify {s : Session} {id : Nat} {entry : ExecutionHistoryEntry} (hid : entry.id = id)
    (f : ExecutionHistoryEntry → ExecutionHistoryEntry) :
    ((s.modify id fun _ => entry).modify id f).executionHistory =
      s.executionHistory.map fun e => if e.id = id then f entry else e := by
  unfold modify
  dsimp only
  rw [List.map_map]
  refine List.map_congr_left fun e _ => ?_
  by_cases he : e.id = id <;> simp [he, hid]

/-- A message of an entry that is held. -/
theorem record_held {id : Nat} {entry : ExecutionHistoryEntry}
    (hbegin : m.msgType ≠ "execute_input") (hinput : m.msgType ≠ "input_request")
    (hget : s.executionHistoryByMsgId.get m.parentMsgId = some id)
    (hfind : s.executionHistory.find? (·.id = id) = some entry) :
    s.recordExecutionHistory m = { s with
      executionHistory := s.executionHistory.map fun e =>
        if e.id = id then (file m (s.recorded entry) entry).1 else e
      historyStreamChars := if isStream m then fun id' =>
          if id' = id then some (file m (s.recorded entry) entry).2 else s.historyStreamChars id'
        else s.historyStreamChars } := by
  obtain rfl : entry.id = id := by simpa using List.find?_some hfind
  unfold recordExecutionHistory
  rw [if_neg hbegin, if_neg hinput, hget]
  dsimp only
  rw [hfind]
  dsimp only [file]
  by_cases hstream : isStream m
  · simp only [if_pos hstream]
    unfold boundStreamHistory
    simp only [Session.mk.injEq]
    have hpushed : ({ entry with messages := entry.messages ++ [m] } : ExecutionHistoryEntry).id =
      entry.id := rfl
    exact ⟨modify_modify hpushed _, rfl, rfl, rfl⟩
  · simp only [if_neg hstream]
    rfl

end Session

namespace Inv

variable {n : Nat}

/-- The entry found is the one of the execution. -/
theorem entry_eq (h : Inv n xs s) {id : Nat} {entry e : ExecutionHistoryEntry}
    (hfind : s.executionHistory.find? (·.id = id) = some entry)
    (he : e ∈ s.executionHistory.reverse) (hid : e.id = id) : e = entry := by
  have hids : (s.executionHistory.reverse.map ExecutionHistoryEntry.id).Nodup := by
    have heq : s.executionHistory.reverse.map ExecutionHistoryEntry.id =
        (xs.take n).map Execution.id := by
      have hmap : ∀ {ys es}, List.Forall₂ (fun x e => Keeps x e (s.recorded e)) ys es →
          es.map ExecutionHistoryEntry.id = ys.map Execution.id := by
        intro ys es h
        induction h with
        | nil => rfl
        | cons hkeeps _ ih => rw [List.map_cons, List.map_cons, hkeeps.id, ih]
      exact hmap h.newest
    rw [heq]
    exact h.nodup.sublist ((List.take_sublist n xs).map _)
  have hentry : entry ∈ s.executionHistory.reverse :=
    List.mem_reverse.mpr (List.mem_of_find?_eq_some hfind)
  have heq : entry.id = id := by simpa using List.find?_some hfind
  exact List.inj_on_of_nodup_map hids he hentry (hid.trans heq.symm)

/-- The index has only entries that are held. -/
theorem entry_of_get (h : Inv n xs s) {id : Nat} {parent : String}
    (hget : s.executionHistoryByMsgId.get parent = some id) : ∃ x entry,
      (xs.take n).find? (·.parentMsgId = parent) = some x ∧ x.id = id ∧
        s.executionHistory.find? (·.id = id) = some entry := by
  rw [h.index] at hget
  obtain ⟨x, hx, hid⟩ := Option.map_eq_some_iff.mp hget
  have hheld : ∀ {ys es}, List.Forall₂ (fun x e => Keeps x e (s.recorded e)) ys es → x ∈ ys →
      ∃ e ∈ es, e.id = x.id := by
    intro ys es h hmem
    induction h with
    | nil => cases hmem
    | cons hkeeps _ ih =>
      rcases List.mem_cons.mp hmem with rfl | hmem
      · exact ⟨_, List.mem_cons_self, hkeeps.id⟩
      · obtain ⟨e, he, heq⟩ := ih hmem
        exact ⟨e, List.mem_cons_of_mem _ he, heq⟩
  obtain ⟨e, he, heq⟩ := hheld h.newest (List.mem_of_find?_eq_some hx)
  have hsome : (s.executionHistory.find? (·.id = id)).isSome := by
    rw [List.find?_isSome]
    exact ⟨e, List.mem_reverse.mp he, by simpa using heq.trans hid⟩
  obtain ⟨entry, hentry⟩ := Option.isSome_iff_exists.mp hsome
  exact ⟨x, entry, hx, hid, hentry⟩

/-- A message of an execution that is held. -/
theorem files (h : Inv n xs s) {x : Execution} {entry : ExecutionHistoryEntry}
    (hbegin : m.msgType ≠ "execute_input") (hinput : m.msgType ≠ "input_request")
    (hget : s.executionHistoryByMsgId.get m.parentMsgId = some x.id)
    (hx : (xs.take n).find? (·.parentMsgId = m.parentMsgId) = some x)
    (hentry : s.executionHistory.find? (·.id = x.id) = some entry) :
    Inv n (receive m xs) (s.recordExecutionHistory m) := by
  have hid : entry.id = x.id := by simpa using List.find?_some hentry
  rw [Session.record_held hbegin hinput hget hentry]
  refine ⟨?_, ?_, ?_, ?_, h.unique, ?_, ?_⟩
  · rw [h.made, ← List.length_map Execution.id, ← receive_ids, List.length_map]
  · rw [receive_ids]
    exact h.nodup
  · exact receive_before h.before
  · rw [receive_take, ← List.map_reverse]
    refine forall₂_receive h.newest (fun y e hkeeps => hkeeps.id)
      (h.nodup.sublist ((List.take_sublist n xs).map _)) hx (fun e he hkeeps => ?_)
      fun y e hne hkeeps => ?_
    · obtain rfl := h.entry_eq hentry he hkeeps.id
      have hfile := hkeeps.file hinput
      unfold Session.recorded at hfile ⊢
      dsimp only
      rw [file_id, hid] at *
      split
      · simpa using hfile
      · rename_i hstream
        simpa [file, hstream] using hfile
    · have hne' : e.id ≠ x.id := hkeeps.id.trans_ne hne
      unfold Session.recorded at hkeeps ⊢
      dsimp only
      split
      · dsimp only
        rw [if_neg hne']
        exact hkeeps
      · exact hkeeps
  · intro parent
    rw [h.index, receive_take, receive_find]
  · intro id hle
    have hlt : x.id < s.made := by
      rw [h.made]
      exact h.before x (List.mem_of_mem_take (List.mem_of_find?_eq_some hx))
    dsimp only
    split
    · dsimp only
      rw [if_neg (Nat.ne_of_gt (Nat.lt_of_lt_of_le hlt hle))]
      exact h.unrecorded id hle
    · exact h.unrecorded id hle

/-- An input request is received, but not kept. -/
theorem asks (h : Inv n xs s) (hm : m.msgType = "input_request") : Inv n (receive m xs) s := by
  have hstream : isStream m = false := by simp [isStream, hm]
  have hfilter : ∀ ms : List JupyterMessage, (ms ++ [m]).filter isStream = ms.filter isStream := by
    intro ms
    simp [hstream]
  refine ⟨?_, ?_, ?_, ?_, h.unique, ?_, h.unrecorded⟩
  · rw [h.made, ← List.length_map Execution.id, ← receive_ids, List.length_map]
  · rw [receive_ids]
    exact h.nodup
  · exact receive_before h.before
  · rw [receive_take]
    refine forall₂_kept h.newest fun x e hkeeps => ?_
    refine ⟨hkeeps.id, hkeeps.code, hkeeps.executionCount,
      hkeeps.sublist.trans (List.sublist_append_left _ _), ?_, ?_, hkeeps.counted, hkeeps.bounded, ?_⟩
    · rw [hkeeps.others, List.filter_append]
      simp [hm]
    · rw [hfilter]
      exact hkeeps.streams
    · rw [hfilter]
      exact hkeeps.truncated
  · intro parent
    rw [h.index, receive_take, receive_find]

/-- **One message.** -/
theorem record (h : Inv MAX_EXECUTION_HISTORY_ENTRIES xs s) (m : JupyterMessage) :
    Inv MAX_EXECUTION_HISTORY_ENTRIES (happen xs m) (s.recordExecutionHistory m) := by
  by_cases hbegin : m.msgType = "execute_input"
  · exact h.begins hbegin
  rw [happen, if_neg hbegin]
  by_cases hinput : m.msgType = "input_request"
  · rw [Session.recordExecutionHistory, if_neg hbegin, if_pos hinput]
    exact h.asks hinput
  cases hget : s.executionHistoryByMsgId.get m.parentMsgId with
  | some id =>
    obtain ⟨x, entry, hx, rfl, hentry⟩ := h.entry_of_get hget
    exact h.files hbegin hinput hget hx hentry
  | none =>
    -- of no execution that is held
    rw [Session.recordExecutionHistory, if_neg hbegin, if_neg hinput, hget]
    have hnone : receive m (xs.take MAX_EXECUTION_HISTORY_ENTRIES) =
        xs.take MAX_EXECUTION_HISTORY_ENTRIES := by
      rw [h.index, Option.map_eq_none_iff] at hget
      exact receive_of_none hget
    refine ⟨?_, ?_, receive_before h.before, ?_, h.unique, ?_, h.unrecorded⟩
    · rw [h.made, ← List.length_map Execution.id, ← receive_ids, List.length_map]
    · rw [receive_ids]
      exact h.nodup
    · rw [receive_take, hnone]
      exact h.newest
    · rw [receive_take, hnone]
      exact h.index

end Inv

/-! ## Every sequence of messages -/

theorem inv (messages : List JupyterMessage) :
    Inv MAX_EXECUTION_HISTORY_ENTRIES (executions messages) (record messages) := by
  induction messages using List.reverseRecOn with
  | nil => exact .init
  | append_singleton messages m ih =>
    rw [executions, record, List.foldl_append, List.foldl_append]
    exact ih.record m

/-- **The history is bounded**: it has the newest executions, and of each all of its messages but
input requests, up to a number of stream characters. -/
theorem history_bounded (messages : List JupyterMessage) :
    Bounded (executions messages) (record messages) := by
  have h := inv messages
  refine ⟨?_, ?_, fun p hp => ?_⟩
  · rw [h.length]
    exact Nat.min_le_left _ _
  · have hnewest := List.forall₂_reverse_iff.mpr h.newest
    rwa [List.reverse_reverse] at hnewest
  · obtain ⟨x, entry, -, -, hentry⟩ := h.entry_of_get (InsertionMap.get_of_mem h.unique hp)
    exact ⟨entry, List.mem_of_find?_eq_some hentry, by simpa using List.find?_some hentry⟩

/-- An execution that asks for input, and goes on. -/
def asked : List JupyterMessage :=
  [{ msgType := "execute_input", parentMsgId := "a" },
    { msgType := "input_request", parentMsgId := "a" },
    { msgType := "execute_result", parentMsgId := "a" }]

/-- **An input request is not kept**, though it is no stream message. -/
theorem input_request_dropped : ¬ List.Forall₂
    (fun x e => e.messages.filter (!isStream ·) = x.received.filter (!isStream ·))
    ((executions asked).take MAX_EXECUTION_HISTORY_ENTRIES).reverse
    (record asked).executionHistory := by
  decide

end Jovian.History
