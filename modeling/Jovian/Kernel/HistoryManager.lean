import Jovian.Lib.Regex
import Mathlib.Data.List.Infix

/-!
# HistoryManager — the kernel's history (`HistoryManager`, `InMemoryHistoryManager`)

The integers of a `history_request` are read into an `int`, and so is the size of the history; the
iterators are moved by them. A move that leaves the list has no meaning, nor has the conversion of an
integer that JSON takes for a double: there is no reply then.

* **`tail_iff`**, **`range_iff`** — when the reply to a tail and a range request is what was asked for.
-/

namespace Jovian.HistoryManager

/-! ## The history -/

abbrev Text := List Char

structure Entry where
  session : Int
  line : Int
  input : Text
  output : Text
deriving DecidableEq

/-- An `entry`, or a `short_entry`, in a reply. -/
structure Shown where
  session : Int
  line : Int
  input : Text
  output : Option Text
deriving DecidableEq

def Entry.shown (output : Bool) (e : Entry) : Shown :=
  { session := e.session, line := e.line, input := e.input
    output := if output then some e.output else none }

inductive Reply where
  | null
  | history (entries : List Shown)
  | error (ename evalue : String)
deriving DecidableEq

/-- `static_cast<int>` -/
def intOf (x : Int) : Int := x.bmod 4294967296

/-- An integer of a JSON text as an `int`: beyond 64 bits it is a double, and then beyond an `int`. -/
def toInt (x : Int) : Option Int :=
  if -9223372036854775808 ≤ x ∧ x < 18446744073709551616 then some (intOf x) else none

/-- `std::next` from the beginning of a list of this size; `none` where it leaves the list. -/
def next (size : Nat) (i : Int) : Option Nat :=
  if 0 ≤ i ∧ i ≤ size then some i.toNat else none

variable (history : List Entry)

def getTailImpl (n : Int) (output : Bool) : Option Reply :=
  let count := min n (intOf history.length)
  (next history.length count).map fun k =>
    -- from the newest on, each put in front
    .history ((history.reverse.take k).reverse.map (Entry.shown output))

def getRangeImpl (start stop : Int) (output : Bool) : Option Reply :=
  let histSize := intOf history.length
  if start > stop ∨ start > histSize then
    some (.error "history_request_error"
      "get_range: start is too high given stop or current history")
  else
    let count := min stop histSize - start
    (next history.length start).bind fun first =>
      (next history.length (start + count)).map fun last =>
        .history (((history.take last).drop first).map (Entry.shown output))

/-! ## Searching -/

def bytes (text : Text) : Regex.Bytes := text.flatMap String.utf8EncodeChar

/-- `[-[\]{}()+.,\^$|#\s]`; the backslash is not one of them, it escapes what is behind it. -/
def specialBytes : Regex.Bytes :=
  [45, 91, 93, 123, 125, 40, 41, 43, 46, 44, 94, 36, 124, 35, 32, 9, 10, 11, 12, 13]

def sanitized (pattern : Regex.Bytes) : Regex.Bytes :=
  pattern.flatMap fun b => if b ∈ specialBytes then [92, b] else [b]

/-- `?` becomes `.`, and `*` becomes `.*`. -/
def regexPattern (pattern : Regex.Bytes) : Regex.Bytes :=
  ((sanitized pattern).map fun b => if b = 63 then 46 else b).flatMap fun b =>
    if b = 42 then [46, 42] else [b]

/-- `c_str()`, as it is read. -/
def cStr (s : Regex.Bytes) : Regex.Bytes := s.takeWhile (· ≠ 0)

/-- `std::unique`, and `erase`: of equal entries behind one another the first stays. -/
def unique : List Shown → List Shown
  | [] => []
  | e :: rest =>
    match unique rest with
    | [] => [e]
    | e' :: rest' => if e = e' then e' :: rest' else e :: e' :: rest'

def cleanHistory (found : List Shown) (n : Int) (isUnique : Bool) : Option (List Shown) :=
  let found := if isUnique then unique found else found
  let nbErase := intOf found.length - n
  if 0 < nbErase then (next found.length nbErase).map fun k => found.drop k else some found

/-- `engine` compiles what is more than text with wildcards. -/
def searchImpl (engine : Regex.Bytes → Option (Regex.Bytes → Bool)) (pattern : Text) (output : Bool)
    (n : Int) (isUnique : Bool) : Option Reply :=
  (Regex.compile engine (regexPattern (bytes pattern))).bind fun finds =>
    (cleanHistory ((history.filter fun e => finds (cStr (bytes e.input))).map (Entry.shown output)) n
      isUnique).map .history

/-! ## Requests -/

/-- The content of a `history_request`; `raw` is read and not used. -/
structure Content where
  histAccessType : Option String := none
  n : Option Int := none
  session : Option Int := none
  start : Option Int := none
  stop : Option Int := none
  output : Option Bool := none
  pattern : Option Text := none
  unique : Option Bool := none

def intValue (x : Option Int) (default : Int) : Option Int := toInt (x.getD default)

/-- No reply where an exception is thrown, or where there is no meaning. -/
def processRequest (engine : Regex.Bytes → Option (Regex.Bytes → Bool)) (content : Content) :
    Option Reply :=
  let histAccessType := content.histAccessType.getD "tail"
  let output := content.output.getD false
  if histAccessType = "tail" then do
    let n ← intValue content.n 10
    getTailImpl history n output
  else if histAccessType = "search" then do
    let n ← intValue content.n 10
    searchImpl history engine (content.pattern.getD ['*']) output n (content.unique.getD false)
  else if histAccessType = "range" then do
    let _ ← intValue content.session 0
    let start ← intValue content.start 1
    let stop ← intValue content.stop 10
    getRangeImpl history start stop output
  else some .null

/-! ## What is asked for -/

/-- The last `n` of a list. -/
def newest {α : Type} (n : Nat) (l : List α) : List α := l.drop (l.length - n)

def TailRight (n : Int) (output : Bool) (reply : Option Reply) : Prop :=
  ∃ r, reply = some r ∧
    (0 ≤ n → r = .history ((newest n.toNat history).map (Entry.shown output)))

def between (start stop line : Int) : Bool := start ≤ line && line < stop

/-- An error says that there is nothing there. -/
def RangeRight (start stop : Int) (output : Bool) (reply : Option Reply) : Prop :=
  ∃ r, reply = some r ∧ match r with
    | .history entries =>
      entries = (history.filter fun e => between start stop e.line).map (Entry.shown output)
    | .error _ _ => stop < start ∨ ∀ e ∈ history, e.line < start
    | .null => False

def Right (content : Content) (reply : Option Reply) : Prop :=
  let histAccessType := content.histAccessType.getD "tail"
  let output := content.output.getD false
  if histAccessType = "tail" then TailRight history (content.n.getD 10) output reply
  else if histAccessType = "range" then
    RangeRight history (content.start.getD 1) (content.stop.getD 10) output reply
  else True

/-- As an `int`, neither `n` nor the size of the history is negative, or smaller where it matters. -/
def TailFits (n : Int) : Prop :=
  ∃ count, toInt n = some count ∧ 0 ≤ count ∧ 0 ≤ intOf history.length ∧
    (0 ≤ n → (count = n ∨ history.length ≤ count) ∧
      (intOf history.length = history.length ∨ n ≤ intOf history.length))

/-- The range is refused, and nothing is in it; or it begins in the history, and the entries at its
places, counted from zero, are those with its line numbers. -/
def RangeFits (session start stop : Int) : Prop :=
  ∃ first last, toInt session ≠ none ∧ toInt start = some first ∧ toInt stop = some last ∧
    if last < first ∨ intOf history.length < first then stop < start ∨ ∀ e ∈ history, e.line < start
    else 0 ≤ first ∧ ∀ (i : Nat) e, history[i]? = some e →
      (first ≤ i ∧ i < min last (intOf history.length) ↔ start ≤ e.line ∧ e.line < stop)

def Fits (content : Content) : Prop :=
  let histAccessType := content.histAccessType.getD "tail"
  if histAccessType = "tail" then TailFits history (content.n.getD 10)
  else if histAccessType = "range" then
    RangeFits history (content.session.getD 0) (content.start.getD 1) (content.stop.getD 10)
  else True

/-! ## Numbers -/

theorem intOf_le {x : Int} (h : 0 ≤ x) : intOf x ≤ x := by
  rw [intOf, Int.bmod_def]
  omega

/-- A size as an `int` is the size, or smaller. -/
theorem intOf_length_le : intOf history.length ≤ history.length :=
  intOf_le (Int.natCast_nonneg _)

theorem toInt_eq_some {x y : Int} (h : toInt x = some y) : y = intOf x := by
  unfold toInt at h
  split at h
  · exact (Option.some.inj h).symm
  · cases h

variable {history} {n start stop : Int} {output : Bool}

/-! ## The tail -/

theorem length_newest {α : Type} (n : Nat) (l : List α) : (newest n l).length = min n l.length := by
  rw [newest, List.length_drop]
  omega

theorem reverse_take_reverse {α : Type} (k : Nat) (l : List α) :
    (l.reverse.take k).reverse = newest k l := by
  rw [List.take_reverse, List.reverse_reverse, newest]

/-- As many of the newest are the same. -/
theorem newest_eq_iff {α : Type} {j k : Nat} {l : List α} :
    newest j l = newest k l ↔ min j l.length = min k l.length := by
  constructor
  · intro h
    rw [← length_newest, h, length_newest]
  · intro h
    rw [newest, newest]
    congr 1
    omega

theorem newest_map {α β : Type} (f : α → β) (n : Nat) (l : List α) :
    (newest n l).map f = newest n (l.map f) := by
  rw [newest, newest, List.map_drop, List.length_map]

theorem next_eq_some {size k : Nat} {i : Int} : next size i = some k ↔ i = k ∧ k ≤ size := by
  unfold next
  split
  · next h =>
    rw [Option.some.injEq]
    omega
  · next h =>
    refine iff_of_false (fun h => by cases h) ?_
    omega

theorem tail_iff : TailRight history n output
    ((toInt n).bind fun n => getTailImpl history n output) ↔ TailFits history n := by
  cases htoInt : toInt n with
  | none =>
    refine iff_of_false (fun ⟨_, h, _⟩ => ?_) fun ⟨_, h, _⟩ => ?_
    · cases h
    · rw [htoInt] at h
      cases h
  | some count =>
    have hcount := toInt_eq_some htoInt
    have hle : 0 ≤ n → count ≤ n := fun h => hcount ▸ intOf_le h
    have hsize := intOf_length_le history
    rw [Option.bind_some, getTailImpl]
    cases hnext : next history.length (min count (intOf history.length)) with
    | none =>
      refine iff_of_false (fun ⟨_, h, _⟩ => ?_) fun ⟨_, h, hcount, hlength, _⟩ => ?_
      · cases h
      · rw [htoInt] at h
        obtain rfl := Option.some.inj h
        have hin : 0 ≤ min count (intOf history.length) ∧
            min count (intOf history.length) ≤ (history.length : Int) := by
          omega
        rw [next, if_pos hin] at hnext
        cases hnext
    | some k =>
      obtain ⟨hk, hksize⟩ := next_eq_some.mp hnext
      have hsame : (Reply.history ((history.reverse.take k).reverse.map (Entry.shown output)) =
          .history ((newest n.toNat history).map (Entry.shown output))) ↔
            min k history.length = min n.toNat history.length := by
        rw [reverse_take_reverse, Reply.history.injEq, newest_map, newest_map, newest_eq_iff,
          List.length_map]
      constructor
      · rintro ⟨_, hreply, hright⟩
        obtain rfl := Option.some.inj hreply
        refine ⟨count, htoInt, ?_, ?_, fun hn => ?_⟩
        · omega
        · omega
        · have hlengths := hsame.mp (hright hn)
          have := hle hn
          omega
      · rintro ⟨count', hcount', -, -, hfits⟩
        obtain rfl : count = count' := Option.some.inj (htoInt.symm.trans hcount')
        refine ⟨_, rfl, fun hn => hsame.mpr ?_⟩
        have := hfits hn
        have := hle hn
        omega

/-! ## The range -/

/-- A piece of a list is what a filter leaves of it. -/
theorem slice_eq_filter_iff {α : Type} (p : α → Bool) (l : List α) {a b : Nat} (hab : a ≤ b) :
    (l.take b).drop a = l.filter p ↔
      ∀ (i : Nat) x, l[i]? = some x → (a ≤ i ∧ i < b ↔ p x = true) := by
  induction l generalizing a b with
  | nil => simp
  | cons y l ih =>
    -- the first element, and the others one place further on
    have hsplit : ∀ q : Nat → α → Prop, (∀ (i : Nat) x, (y :: l)[i]? = some x → q i x) ↔
        q 0 y ∧ ∀ (i : Nat) x, l[i]? = some x → q (i + 1) x := by
      intro q
      constructor
      · exact fun h => ⟨h 0 y rfl, fun i x hx => h (i + 1) x hx⟩
      · rintro ⟨h0, hrest⟩ (_ | i) x hx
        · obtain rfl : y = x := Option.some.inj hx
          exact h0
        · exact hrest i x hx
    rw [hsplit]
    cases b with
    | zero =>
      obtain rfl : a = 0 := Nat.le_zero.mp hab
      have hnone := ih (Nat.le_refl 0)
      cases hy : p y with
      | true => simp [hy]
      | false => simpa [List.filter_cons, hy] using hnone
    | succ b =>
      cases a with
      | zero =>
        cases hy : p y with
        | true => simpa [List.filter_cons, hy] using ih (Nat.zero_le b)
        | false =>
          refine iff_of_false (fun h => ?_) fun h => ?_
          · have hmem : y ∈ (y :: l).filter p := by
              rw [← h]
              simp
            rw [List.mem_filter, hy] at hmem
            cases hmem.2
          · exact absurd (h.1.mp ⟨Nat.le_refl 0, Nat.succ_pos b⟩) (by simp)
      | succ a =>
        cases hy : p y with
        | true =>
          refine iff_of_false (fun h => ?_) fun h => ?_
          · -- the piece has what the filter leaves of it, without the first
            rw [List.take_succ_cons, List.drop_succ_cons, List.filter_cons_of_pos hy] at h
            have hsub : ((l.take b).drop a).Sublist l :=
              (List.drop_sublist _ _).trans (List.take_sublist _ _)
            have hall : ((l.take b).drop a).filter p = (l.take b).drop a := by
              rw [h, List.filter_cons_of_pos hy, List.filter_filter]
              simp
            have hlength := (hsub.filter p).length_le
            rw [hall, h, List.length_cons] at hlength
            exact absurd hlength (Nat.not_succ_le_self _)
          · exact absurd (h.1.mpr rfl).1 (Nat.not_succ_le_zero a)
        | false =>
          have hrest := ih (Nat.le_of_succ_le_succ hab)
          rw [List.take_succ_cons, List.drop_succ_cons, List.filter_cons_of_neg (by simp [hy]), hrest]
          simp

theorem between_iff {line : Int} : between start stop line = true ↔ start ≤ line ∧ line < stop := by
  rw [between, Bool.and_eq_true, decide_eq_true_iff, decide_eq_true_iff]

/-- The entries at these places are those of the range. -/
theorem slice_shown_iff (output : Bool) {first last : Nat} (h : first ≤ last) :
    ((history.take last).drop first).map (Entry.shown output) =
        (history.filter fun e => between start stop e.line).map (Entry.shown output) ↔
      ∀ (i : Nat) e, history[i]? = some e →
        (first ≤ i ∧ i < last ↔ start ≤ e.line ∧ e.line < stop) := by
  have hfilter : (history.filter fun e => between start stop e.line).map (Entry.shown output) =
      (history.map (Entry.shown output)).filter fun e => between start stop e.line := by
    rw [List.filter_map]
    rfl
  rw [hfilter, List.map_drop, List.map_take, slice_eq_filter_iff _ _ h]
  constructor
  · intro hall i e he
    rw [← between_iff]
    exact hall i (e.shown output) (by rw [List.getElem?_map, he]; rfl)
  · intro hall i x hx
    rw [List.getElem?_map, Option.map_eq_some_iff] at hx
    obtain ⟨e, he, rfl⟩ := hx
    rw [hall i e he, ← between_iff]
    rfl

/-- A range that is not refused. -/
theorem getRangeImpl_iff {first last : Int}
    (hserved : ¬ (last < first ∨ intOf history.length < first)) :
    RangeRight history start stop output (getRangeImpl history first last output) ↔
      0 ≤ first ∧ ∀ (i : Nat) e, history[i]? = some e →
        (first ≤ i ∧ i < min last (intOf history.length) ↔ start ≤ e.line ∧ e.line < stop) := by
  have hsize := intOf_length_le history
  rw [getRangeImpl, if_neg hserved]
  by_cases hfirst : 0 ≤ first
  · have hnext : next history.length first = some first.toNat := by
      rw [next_eq_some]
      omega
    have hlast : next history.length (first + (min last (intOf history.length) - first)) =
        some (min last (intOf history.length)).toNat := by
      rw [next_eq_some]
      omega
    have hbounds : ∀ i : Nat, (first ≤ i ∧ i < min last (intOf history.length)) ↔
        first.toNat ≤ i ∧ i < (min last (intOf history.length)).toNat := by
      intro i
      omega
    simp only [hnext, hlast, Option.bind_some, Option.map_some, hbounds]
    rw [← slice_shown_iff output (by omega)]
    constructor
    · rintro ⟨_, hreply, hright⟩
      obtain rfl := Option.some.inj hreply
      exact ⟨hfirst, hright⟩
    · rintro ⟨-, hright⟩
      exact ⟨_, rfl, hright⟩
  · refine iff_of_false (fun ⟨_, hreply, _⟩ => ?_) fun h => hfirst h.1
    rw [next, if_neg fun h => hfirst h.1] at hreply
    cases hreply

theorem range_iff {session : Int} : RangeRight history start stop output
    ((toInt session).bind fun _ => (toInt start).bind fun start => (toInt stop).bind fun stop =>
      getRangeImpl history start stop output) ↔ RangeFits history session start stop := by
  have hundefined : ¬ RangeRight history start stop output none := by
    rintro ⟨_, h, -⟩
    cases h
  unfold RangeFits
  cases toInt session with
  | none => exact iff_of_false hundefined fun ⟨_, _, h, _⟩ => h rfl
  | some _ =>
    cases toInt start with
    | none => exact iff_of_false hundefined fun ⟨_, _, _, h, _⟩ => by cases h
    | some first =>
      cases toInt stop with
      | none => exact iff_of_false hundefined fun ⟨_, _, _, _, h, _⟩ => by cases h
      | some last =>
        simp only [Option.bind_some, ne_eq, reduceCtorEq, not_false_eq_true, true_and,
          Option.some.injEq, exists_and_left, exists_eq_left']
        by_cases hrefused : last < first ∨ intOf history.length < first
        · rw [if_pos hrefused, getRangeImpl, if_pos hrefused]
          constructor
          · rintro ⟨_, hreply, hright⟩
            obtain rfl := Option.some.inj hreply
            exact hright
          · exact fun h => ⟨_, rfl, h⟩
        · rw [if_neg hrefused]
          exact getRangeImpl_iff hrefused

/-! ## Requests -/

/-- **A tail or a range is answered with what was asked for** exactly when its integers fit. -/
theorem history_iff (engine : Regex.Bytes → Option (Regex.Bytes → Bool)) (history : List Entry)
    (content : Content) :
    Right history content (processRequest history engine content) ↔ Fits history content := by
  unfold Right Fits processRequest
  by_cases htail : content.histAccessType.getD "tail" = "tail"
  · simp only [htail, if_true]
    exact tail_iff
  · simp only [htail, if_false]
    by_cases hrange : content.histAccessType.getD "tail" = "range"
    · simp only [hrange, if_true, String.reduceEq, if_false]
      exact range_iff
    · simp only [hrange, if_false]

/-! ## A negative number, and line numbers that are no places -/

def twoCells : List Entry :=
  [{ session := 0, line := 1, input := ['x'], output := [] },
    { session := 0, line := 2, input := ['y'], output := [] }]

/-- **The iterators leave the list** at a negative `n` and at a negative `start`; and the range from
the first line to the second has the second. -/
theorem tail_and_range_wrong :
    (¬ Right twoCells { n := some (-1) } (processRequest twoCells (fun _ => none) { n := some (-1) })) ∧
    (¬ Right twoCells { histAccessType := some "range", start := some (-1), stop := some 1 }
      (processRequest twoCells (fun _ => none)
        { histAccessType := some "range", start := some (-1), stop := some 1 })) ∧
    ¬ Right twoCells { histAccessType := some "range", start := some 1, stop := some 2 }
      (processRequest twoCells (fun _ => none)
        { histAccessType := some "range", start := some 1, stop := some 2 }) := by
  refine ⟨?_, ?_, ?_⟩
  · rintro ⟨_, h, -⟩
    cases h
  · rintro ⟨_, h, -⟩
    cases h
  · rintro ⟨_, h, hright⟩
    cases h
    exact absurd hright (by decide)

end Jovian.HistoryManager
