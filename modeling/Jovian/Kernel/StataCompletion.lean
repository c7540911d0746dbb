import Jovian.Kernel.EchoFilter
import Jovian.Lib.Utf8
import Mathlib.Data.List.DropRight

/-!
# StataCompletion — the name at the cursor (`completionToken`, `tokenAt`, `completeRequestImpl`)

The kernel has the code as the bytes of its UTF-8, and a client's cursor counts code points.

* `completionToken_at`, `tokenAt_at` — the name at a place in the bytes.
* **`offsets_right_iff`** — the names and places are right up to a cursor, if and only if all that is
  before it is ASCII.
-/

namespace Jovian.StataText

open EchoFilter (Text isSpace isDigit)

/-! ## The token -/

def isAlnum (c : Char) : Bool := isDigit c ∨ ('a' ≤ c ∧ c ≤ 'z') ∨ ('A' ≤ c ∧ c ≤ 'Z')

/-- The bytes of a UTF-8 sequence count too. -/
def isNameChar (c : Char) : Bool := 0x80 ≤ c.toNat ∨ isAlnum c ∨ c = '_'

inductive CompletionKind where
  | noName | variableName | globalName | localName | commandName
  | resultName (resultClass : Char)
deriving DecidableEq

structure CompletionToken where
  kind : CompletionKind
  /-- What has been typed of the name so far. -/
  typed : Text
  /-- Where the name starts in the code. -/
  start : Nat

/-- The words that may come before a command: quietly regress. -/
def isCommandPrefix (word : Text) : Bool :=
  ["quietly", "qui", "quietl", "noisily", "noi", "capture", "cap", "captur", "capt", "captu",
    "bysort", "bys", "by", "xi", "svy", "mi", "statsby", "rolling", "bootstrap", "jackknife",
    "permute", "simulate", "nestreg", "stepwise", "eststo", "version", "frame", "timer", "python",
    "mata", "collect", "table"].any (·.toList = word)

/-- The words of a stream. -/
def words (text : Text) : List Text := (text.splitOnP isSpace).filter (· ≠ [])

/-- Whether the name that starts at `start` is the first word of a command. -/
def startsCommand (code : Text) (start : Nat) : Bool :=
  let before := (code.take start).rtakeWhile fun c => c ≠ '\n' ∧ c ≠ ';'
  -- what follows the last colon of "by foreign: summ"
  let before := before.rtakeWhile (· ≠ ':')
  (words before).all isCommandPrefix

/-- The cursor, within the code. -/
def clamp (code : Text) (cursorPos : Int) : Nat := min cursorPos.toNat code.length

/-- Where the name that ends at `pos` starts. -/
def nameStart (code : Text) (pos : Nat) : Nat := ((code.take pos).rdropWhile isNameChar).length

def completionToken (code : Text) (cursorPos : Int) : CompletionToken :=
  let pos := clamp code cursorPos
  let start := nameStart code pos
  let typed := (code.drop start).take (pos - start)
  let back (n : Nat) := if n ≤ start then code.getD (start - n) '\x00' else '\x00'
  let kind :=
    if back 1 = '\x60' then .localName
    else if back 1 = '$' ∨ (back 1 = '{' ∧ back 2 = '$') then .globalName
    else if back 1 = '(' ∧ (back 2 = 'r' ∨ back 2 = 'e' ∨ back 2 = 's') ∧ ¬ isNameChar (back 3) then
      .resultName (back 2)
    else if typed ≠ [] ∧ ¬ typed.head?.any isDigit then
      if startsCommand code start then .commandName else .variableName
    else .noName
  { kind, typed, start }

/-- The name under or just before the cursor. -/
def tokenAt (code : Text) (cursorPos : Int) : Text :=
  let pos := clamp code cursorPos
  let start := nameStart code pos
  let stop := pos + ((code.drop pos).takeWhile isNameChar).length
  (code.drop start).take (stop - start)

def matchingNames (candidates : List Text) (typed : Text) : List Text :=
  (candidates.filter typed.isPrefixOf).eraseDups

end Jovian.StataText

namespace Jovian.StataInterpreter

open EchoFilter (Text)
open StataText

structure CompleteReply where
  matched : List Text
  cursorStart : Int
  cursorEnd : Int

/-- `names` are those that Stata has of a kind. -/
def completeRequestImpl (names : CompletionKind → List Text) (code : Text) (cursorPos : Int) :
    CompleteReply :=
  let token := completionToken code cursorPos
  if token.kind = .noName then ⟨[], cursorPos, cursorPos⟩
  else ⟨matchingNames (names token.kind) token.typed, token.start, cursorPos⟩

/-! ## What a client asks for -/

/-- The UTF-8 of a text, a `Char` for each `char`. -/
def utf8 (text : Text) : Text :=
  text.flatMap fun c => (String.utf8EncodeChar c).map fun b => Char.ofNat b.toNat

/-- The longest name that ends at the cursor. -/
def nameBefore (code : Text) (pos : Nat) : Text := (code.take pos).rtakeWhile isNameChar

def nameAfter (code : Text) (pos : Nat) : Text := (code.drop pos).takeWhile isNameChar

/-- What a client that counts code points may rely on, with its cursor at `pos` of the code. -/
structure Right (names : CompletionKind → List Text) (code : Text) (pos : Nat) : Prop where
  token : (completionToken (utf8 code) pos).typed = utf8 (nameBefore code pos)
  /-- The code points from `cursor_start` to `cursor_end` are the name that a match replaces. -/
  replaced : ∀ name, utf8 name ∈ (completeRequestImpl names (utf8 code) pos).matched →
    code.take (completeRequestImpl names (utf8 code) pos).cursorStart.toNat ++ name ++
        code.drop (completeRequestImpl names (utf8 code) pos).cursorEnd.toNat =
      (code.take pos).rdropWhile isNameChar ++ name ++ code.drop pos
  inspected : tokenAt (utf8 code) pos = utf8 (nameBefore code pos ++ nameAfter code pos)

/-! ## The bytes of a text -/

theorem utf8_append (a b : Text) : utf8 (a ++ b) = utf8 a ++ utf8 b := List.flatMap_append

theorem utf8_cons (c : Char) (text : Text) : utf8 (c :: text) = utf8 [c] ++ utf8 text :=
  utf8_append [c] text

theorem utf8_char {c : Char} (h : c.toNat < 128) : utf8 [c] = [c] := by
  have hbyte : c.toNat.toUInt8.toNat = c.toNat :=
    UInt8.toNat_ofNat_of_lt' (Nat.lt_trans h (by decide))
  simp [utf8, Utf8.utf8EncodeChar_ascii h, hbyte]

theorem utf8_ascii {text : Text} (h : ∀ c ∈ text, c.toNat < 128) : utf8 text = text := by
  induction text with
  | nil => rfl
  | cons c text ih =>
    rw [utf8_cons, utf8_char (h c List.mem_cons_self), ih fun d hd => h d (List.mem_cons_of_mem _ hd)]
    rfl

theorem isNameChar_of_le {c : Char} (h : 128 ≤ c.toNat) : isNameChar c = true := by
  simp [isNameChar, h]

theorem isNameChar_of_mem_utf8 {c d : Char} (h : 128 ≤ c.toNat) (hd : d ∈ utf8 [c]) :
    isNameChar d = true := by
  simp only [utf8, List.flatMap_cons, List.flatMap_nil, List.append_nil, List.mem_map] at hd
  obtain ⟨b, hb, rfl⟩ := hd
  have hle := Utf8.le_of_mem_utf8EncodeChar h b hb
  have hvalid : b.toNat.isValidChar := .inl (Nat.lt_trans b.toNat_lt (by decide))
  refine isNameChar_of_le ?_
  rw [Char.ofNat, dif_pos hvalid]
  exact hle

theorem two_le_length_utf8 {c : Char} (h : 128 ≤ c.toNat) : 2 ≤ (utf8 [c]).length := by
  have hone : c.utf8Size ≠ 1 := fun hsize => by
    have hle : c.toNat ≤ 127 := Char.utf8Size_eq_one_iff.mp hsize
    omega
  have hpos := c.utf8Size_pos
  simp only [utf8, List.flatMap_cons, List.flatMap_nil, List.append_nil, List.length_map,
    String.length_utf8EncodeChar]
  omega

theorem takeWhile_utf8 (text : Text) :
    (utf8 text).takeWhile isNameChar = utf8 (text.takeWhile isNameChar) := by
  induction text with
  | nil => rfl
  | cons c text ih =>
    by_cases hascii : c.toNat < 128
    · rw [utf8_cons, utf8_char hascii, List.singleton_append]
      cases hname : isNameChar c
      · rw [List.takeWhile_cons_of_neg (by simp [hname]), List.takeWhile_cons_of_neg (by simp [hname])]
        rfl
      · rw [List.takeWhile_cons_of_pos hname, List.takeWhile_cons_of_pos hname, ih,
          utf8_cons, utf8_char hascii]
        rfl
    · -- all of its bytes are name characters, as it is one
      have hle := Nat.not_lt.mp hascii
      rw [utf8_cons, List.takeWhile_append_of_pos fun d hd => isNameChar_of_mem_utf8 hle hd, ih,
        List.takeWhile_cons_of_pos (isNameChar_of_le hle), ← utf8_cons]

/-! ## The name at a place -/

theorem clamp_append (before after : Text) : clamp (before ++ after) before.length = before.length := by
  simp [clamp]

theorem nameStart_append (before after : Text) :
    nameStart (before ++ after) before.length = (before.rdropWhile isNameChar).length := by
  rw [nameStart, List.take_left]

/-- The name that ends a text, and what is before it. -/
theorem name_split (before : Text) :
    before.rdropWhile isNameChar ++ before.rtakeWhile isNameChar = before :=
  List.rdropWhile_append_rtakeWhile

theorem drop_name (before after : Text) :
    (before ++ after).drop (before.rdropWhile isNameChar).length = before.rtakeWhile isNameChar ++ after := by
  conv_lhs => enter [2, 1]; rw [← name_split before]
  rw [List.append_assoc, List.drop_left]

theorem length_name (before : Text) :
    before.length - (before.rdropWhile isNameChar).length = (before.rtakeWhile isNameChar).length := by
  have hlength := congrArg List.length (name_split before)
  rw [List.length_append] at hlength
  omega

theorem completionToken_at (before after : Text) :
    (completionToken (before ++ after) before.length).typed = before.rtakeWhile isNameChar ∧
      (completionToken (before ++ after) before.length).start = (before.rdropWhile isNameChar).length := by
  simp only [completionToken, clamp_append, nameStart_append, drop_name, length_name, List.take_left,
    and_self]

theorem tokenAt_at (before after : Text) : tokenAt (before ++ after) before.length =
    before.rtakeWhile isNameChar ++ after.takeWhile isNameChar := by
  have hlength := length_name before
  have hle : (before.rdropWhile isNameChar).length ≤ before.length :=
    (List.rdropWhile_prefix _ _).length_le
  have hstop : before.length + (after.takeWhile isNameChar).length -
      (before.rdropWhile isNameChar).length =
        (before.rtakeWhile isNameChar ++ after.takeWhile isNameChar).length := by
    rw [List.length_append]
    omega
  rw [tokenAt]
  simp only [clamp_append, nameStart_append, drop_name, List.drop_left, hstop]
  have hends := (List.prefix_append_right_inj (before.rtakeWhile isNameChar)).mpr
    (List.takeWhile_prefix isNameChar (l := after))
  exact (List.prefix_iff_eq_take.mp hends).symm

variable {names : CompletionKind → List Text} {code : Text} {pos : Nat}

theorem cursor_at (names : CompletionKind → List Text) (before after : Text) :
    (completeRequestImpl names (before ++ after) before.length).matched = [] ∨
      (completeRequestImpl names (before ++ after) before.length).cursorStart =
          ((before.rdropWhile isNameChar).length : Int) ∧
        (completeRequestImpl names (before ++ after) before.length).cursorEnd = before.length := by
  simp only [completeRequestImpl, (completionToken_at before after).2]
  split
  · exact .inl rfl
  · exact .inr ⟨rfl, rfl⟩

/-- After ASCII a byte is a code point. -/
theorem right_of_ascii {before : Text} (h : ∀ c ∈ before, c.toNat < 128) (after : Text) :
    Right names (before ++ after) before.length := by
  have hname : utf8 (before.rtakeWhile isNameChar) = before.rtakeWhile isNameChar :=
    utf8_ascii fun c hc => h c ((List.rtakeWhile_suffix _ _).subset hc)
  refine ⟨?_, fun name hmatched => ?_, ?_⟩
  · rw [utf8_append, utf8_ascii h, (completionToken_at before _).1, nameBefore, List.take_left, hname]
  · rw [utf8_append, utf8_ascii h] at hmatched ⊢
    rcases cursor_at names before (utf8 after) with hnone | ⟨hstart, hend⟩
    · rw [hnone] at hmatched
      cases hmatched
    · have htake : (before ++ after).take (before.rdropWhile isNameChar).length =
          before.rdropWhile isNameChar := by
        conv_lhs => enter [2, 1]; rw [← name_split before]
        rw [List.append_assoc, List.take_left]
      rw [hstart, hend, Int.toNat_natCast, Int.toNat_natCast, htake, List.take_left]
  · rw [utf8_append, utf8_ascii h, tokenAt_at, utf8_append, nameBefore, nameAfter, List.take_left,
      List.drop_left, hname, takeWhile_utf8]

/-- The cursor after the first character that is not ASCII is in the middle of its bytes. -/
theorem ascii_of_right {before after : Text} {c : Char} (h : ∀ c ∈ before, c.toNat < 128)
    (hright : Right names (before ++ c :: after) (before ++ [c]).length) : c.toNat < 128 := by
  by_contra hc
  have hle := Nat.not_lt.mp hc
  have hlength := two_le_length_utf8 hle
  obtain ⟨first, more, hbytes⟩ := List.exists_cons_of_length_pos (Nat.lt_of_succ_lt hlength)
  have hfirst : isNameChar first = true :=
    isNameChar_of_mem_utf8 hle (hbytes ▸ List.mem_cons_self)
  -- the cursor, as a place in the bytes, is after the first of them
  have hsplit : utf8 (before ++ c :: after) = (before ++ [first]) ++ (more ++ utf8 after) := by
    rw [utf8_append, utf8_ascii h, utf8_cons, hbytes]
    simp
  have htyped := (completionToken_at (before ++ [first]) (more ++ utf8 after)).1
  rw [List.rtakeWhile_concat_pos _ _ _ hfirst, ← hsplit, List.length_append, List.length_singleton,
    ← List.length_singleton (a := c), ← List.length_append] at htyped
  have htoken := hright.token
  have htake : (before ++ c :: after).take (before ++ [c]).length = before ++ [c] := by
    rw [List.append_cons before c after, List.take_left]
  rw [htyped, nameBefore, htake, List.rtakeWhile_concat_pos _ _ _ (isNameChar_of_le hle), utf8_append,
    utf8_ascii fun d hd => h d ((List.rtakeWhile_suffix _ _).subset hd)] at htoken
  have hone := congrArg List.length (List.append_cancel_left htoken)
  rw [List.length_singleton] at hone
  omega

/-- The names and places are right up to a cursor, if and only if all that is before it is ASCII. -/
theorem offsets_right_iff (names : CompletionKind → List Text) (code : Text) (pos : Nat) :
    (∀ q, q ≤ pos → q ≤ code.length → Right names code q) ↔ ∀ c ∈ code.take pos, c.toNat < 128 := by
  constructor
  · intro hright
    -- the character after the first `pos` is ASCII, by the cursor behind it
    induction pos with
    | zero => simp
    | succ pos ih =>
      have hbefore := ih fun q hq => hright q (Nat.le_succ_of_le hq)
      by_cases hlt : pos < code.length
      · have hsplit : code = code.take pos ++ code[pos] :: code.drop (pos + 1) := by
          rw [← List.drop_eq_getElem_cons hlt, List.take_append_drop]
        have hlength : (code.take pos ++ [code[pos]]).length = pos + 1 := by
          rw [List.length_append, List.length_take, Nat.min_eq_left (Nat.le_of_lt hlt),
            List.length_singleton]
        have hnext : Right names (code.take pos ++ code[pos] :: code.drop (pos + 1))
            (code.take pos ++ [code[pos]]).length := by
          rw [← hsplit, hlength]
          exact hright (pos + 1) (Nat.le_refl _) hlt
        intro c hc
        rw [List.take_succ_eq_append_getElem hlt, List.mem_append, List.mem_singleton] at hc
        rcases hc with hc | rfl
        · exact hbefore c hc
        · exact ascii_of_right hbefore hnext
      · rw [List.take_of_length_le (by omega)]
        rwa [List.take_of_length_le (by omega)] at hbefore
  · intro h q hq hle
    have hascii : ∀ c ∈ code.take q, c.toNat < 128 := fun c hc =>
      h c ((List.take_sublist_take_left hq).subset hc)
    have hright : Right names _ _ := right_of_ascii hascii (code.drop q)
    rwa [List.take_append_drop, List.length_take, Nat.min_eq_left hle] at hright

/-- Completing `pric` after an é: the match is to replace the code from its second letter on. -/
theorem completion_after_accent_wrong :
    let reply := completeRequestImpl (fun _ => ["price".toList]) (utf8 "é pric".toList) 6
    (reply.matched = ["price".toList] ∧ reply.cursorStart = 3 ∧ reply.cursorEnd = 6) ∧
      ¬ Right (fun _ => ["price".toList]) "é pric".toList 6 := by
  refine ⟨by decide, fun h => ?_⟩
  have htoken := h.token
  revert htoken
  decide

end Jovian.StataInterpreter
