import Jovian.Lib.JsonLexer
import Mathlib.Data.String.Basic

/-!
# Jovian — JSON texts, read and written

The parser is a machine that takes one token at a time and keeps the open brackets on a stack, so
what it does with a text is what it does with its pieces, one after the other. An object keeps its
members in the order of their keys, and the last of those with one key (`std::map`).

* **`read_dump`** — a canonical value is read back from its text.
* **`parse_canonical`** — what is read is canonical.
* **`read_splice`** — a value's text put into an object's, as its last member, is read as that
  object with that member.
-/

namespace Jovian.Json

/-! ## Parsing -/

/-- Sets a key: the members stay in the order of their keys. -/
def setMember (key : String) (v : Json) : List (String × Json) → List (String × Json)
  | [] => [(key, v)]
  | m :: ms =>
    if key = m.1 then (key, v) :: ms
    else if key < m.1 then (key, v) :: m :: ms
    else m :: setMember key v ms

/-- The members as they are set, one after the other. -/
def inOrder (ms : List (String × Json)) : List (String × Json) :=
  ms.foldl (fun acc m => setMember m.1 m.2 acc) []

/-- An open bracket, with what has been read in it. -/
inductive Container where
  | array (elements : List Json)
  | object (members : List (String × Json)) (key : String)

/-- What the parser waits for. -/
inductive Parser where
  | value (stack : List Container)
  /-- After `[`. -/
  | firstValue (stack : List Container)
  /-- After `{`. -/
  | firstKey (stack : List Container)
  | key (stack : List Container) (members : List (String × Json))
  | colon (stack : List Container) (members : List (String × Json)) (key : String)
  /-- After a value. -/
  | next (stack : List Container) (v : Json)

def Parser.startValue (stack : List Container) : Token → Option Parser
  | .beginObject => some (.firstKey stack)
  | .beginArray => some (.firstValue stack)
  | .null => some (.next stack .null)
  | .bool b => some (.next stack (.bool b))
  | .number s => some (.next stack (.number s))
  | .string s => some (.next stack (.string s))
  | _ => none

def Parser.step : Parser → Token → Option Parser
  | .value stack, t => startValue stack t
  | .firstValue stack, t =>
    if t = .endArray then some (.next stack (.array [])) else startValue (.array [] :: stack) t
  | .firstKey stack, .endObject => some (.next stack (.object []))
  | .firstKey stack, .string k => some (.colon stack [] k)
  | .key stack ms, .string k => some (.colon stack ms k)
  | .colon stack ms k, .colon => some (.value (.object ms k :: stack))
  | .next (.array es :: stack) v, .comma => some (.value (.array (es ++ [v]) :: stack))
  | .next (.array es :: stack) v, .endArray => some (.next stack (.array (es ++ [v])))
  | .next (.object ms k :: stack) v, .comma => some (.key stack (setMember k v ms))
  | .next (.object ms k :: stack) v, .endObject =>
    some (.next stack (.object (setMember k v ms)))
  | _, _ => none

def Parser.run (p : Parser) (ts : List Token) : Option Parser :=
  ts.foldlM step p

/-- The value of a whole text. -/
def parseTokens (ts : List Token) : Option Json :=
  match (Parser.value []).run ts with
  | some (.next [] v) => some v
  | _ => none

def read (d : Dialect) (text : List Char) : Option Json :=
  (lex d text).bind parseTokens

/-- A reader that returns `discarded` where it reads nothing; it skips a byte order mark. -/
def parse (inRange : String → Bool) (text : List Char) : Json :=
  (match text with
  | '\uFEFF' :: text => read (.lenient inRange) text
  | text => read (.lenient inRange) text).getD .discarded

/-! ## Writing -/

def hexChar (n : Nat) : Char :=
  if n < 10 then Char.ofNat ('0'.toNat + n) else Char.ofNat ('a'.toNat + (n - 10))

def escapeChar (c : Char) : List Char :=
  if c = '"' then ['\\', '"']
  else if c = '\\' then ['\\', '\\']
  else if c = '\x08' then ['\\', 'b']
  else if c = '\x0c' then ['\\', 'f']
  else if c = '\n' then ['\\', 'n']
  else if c = '\r' then ['\\', 'r']
  else if c = '\t' then ['\\', 't']
  else if c.toNat < 0x20 then ['\\', 'u', '0', '0', hexChar (c.toNat / 16), hexChar (c.toNat % 16)]
  else [c]

def Token.text : Token → List Char
  | .beginObject => ['{']
  | .endObject => ['}']
  | .beginArray => ['[']
  | .endArray => [']']
  | .colon => [':']
  | .comma => [',']
  | .null => "null".toList
  | .bool b => if b then "true".toList else "false".toList
  | .number s => s.toList
  | .string s => '"' :: (s.toList.flatMap escapeChar ++ ['"'])
  | .discarded => "<discarded>".toList

mutual

/-- A value's tokens. -/
def tokens : Json → List Token
  | .discarded => [.discarded]
  | .null => [.null]
  | .bool b => [.bool b]
  | .number s => [.number s]
  | .string s => [.string s]
  | .array [] => [.beginArray, .endArray]
  | .array (e :: es) => .beginArray :: (tokens e ++ (moreElements es ++ [.endArray]))
  | .object [] => [.beginObject, .endObject]
  | .object ((key, v) :: ms) =>
    .beginObject :: .string key :: .colon :: (tokens v ++ (moreMembers ms ++ [.endObject]))

def moreElements : List Json → List Token
  | [] => []
  | e :: es => .comma :: (tokens e ++ moreElements es)

def moreMembers : List (String × Json) → List Token
  | [] => []
  | (key, v) :: ms => .comma :: .string key :: .colon :: (tokens v ++ moreMembers ms)

end

/-- The text of some tokens. -/
def texts (ts : List Token) : List Char :=
  ts.flatMap Token.text

/-- `j.dump()`; a number is written as it was read. -/
def dump (j : Json) : List Char :=
  texts (tokens j)

/-! ## A token's text -/

theorem character_escape (c : Char) (u : List Char) :
    character (escapeChar c ++ u) = some (some c, u) := by
  unfold escapeChar
  split_ifs with h₁ h₂ h₃ h₄ h₅ h₆ h₇ h₈
  · subst h₁; rfl
  · subst h₂; rfl
  · subst h₃; rfl
  · subst h₄; rfl
  · subst h₅; rfl
  · subst h₆; rfl
  · subst h₇; rfl
  · -- a control character without a letter of its own
    have hc : c = Char.ofNat c.toNat := (Char.ofNat_toNat c).symm
    generalize c.toNat = n at hc h₈
    subst hc
    interval_cases n <;> rfl
  · simp only [List.cons_append, List.nil_append, character, h₁, h₂, h₈, if_false]

theorem scanString_text (s u : List Char) :
    scanString (s.flatMap escapeChar ++ '"' :: u) = some (s, u) := by
  induction s with
  | nil => exact scanString_end rfl
  | cons c s ih =>
    rw [List.flatMap_cons, List.append_assoc, scanString_cons (character_escape c _), ih]
    rfl

/-- A token that a text can hold. -/
def Token.Valid : Token → Prop
  | .number s => IsNumber s
  | .discarded => False
  | _ => True

theorem lexeme_text {t : Token} {u : List Char} (ht : t.Valid)
    (hu : (∃ s, t = .number s) → Boundary u) :
    lexeme .strict (t.text ++ u) = some (some t, u) := by
  cases t with
  | string s =>
    show lexeme .strict ('"' :: ((s.toList.flatMap escapeChar ++ ['"']) ++ u)) = _
    rw [lexeme_quote, List.append_assoc, List.singleton_append, scanString_text]
    simp
  | number s =>
    have hs : scanNumber s.toList = some (s.toList, []) := ht
    obtain ⟨c, cs, hcs, hc⟩ := scanNumber_head hs
    have hlocal := (Local.scanNumber _ _ _ hs).2 u (.inr (hu ⟨s, rfl⟩).ends)
    show lexeme .strict (s.toList ++ u) = _
    rw [hcs] at hlocal ⊢
    have hnumber := lexeme_number hc hlocal
    rw [← hcs, String.ofList_toList] at hnumber
    exact hnumber
  | bool b => cases b <;> rfl
  | discarded => cases ht
  | _ => rfl

/-- **The text of a token is read as that token.** A number needs a boundary behind it. -/
theorem lex_text {t : Token} {u : List Char} (ht : t.Valid)
    (hu : (∃ s, t = .number s) → Boundary u) :
    lex .strict (t.text ++ u) = (lex .strict u).map (t :: ·) := by
  rw [lex_lexeme (lexeme_text ht hu)]
  rfl

/-! ### On one line -/

theorem hexChar_plain {n : Nat} (hn : n < 16) : 0x20 ≤ (hexChar n).toNat := by
  interval_cases n <;> decide

theorem plain_of_all {cs : List Char} (h : cs.all (fun c => 0x20 ≤ c.toNat) = true) :
    ∀ c ∈ cs, 0x20 ≤ c.toNat := by
  simpa only [List.all_eq_true, decide_eq_true_eq] using h

/-- An escape has no control character. -/
theorem escapeChar_plain (c : Char) : ∀ d ∈ escapeChar c, 0x20 ≤ d.toNat := by
  unfold escapeChar
  split_ifs with h₁ h₂ h₃ h₄ h₅ h₆ h₇ h₈
  · exact plain_of_all rfl
  · exact plain_of_all rfl
  · exact plain_of_all rfl
  · exact plain_of_all rfl
  · exact plain_of_all rfl
  · exact plain_of_all rfl
  · exact plain_of_all rfl
  · have hhigh := hexChar_plain (n := c.toNat / 16) (by omega)
    have hlow := hexChar_plain (n := c.toNat % 16) (Nat.mod_lt _ (by decide))
    have hu : ∀ d ∈ ['\\', 'u', '0', '0'], 0x20 ≤ d.toNat := plain_of_all rfl
    intro d hd
    obtain hd | hd := List.mem_append.1 (show d ∈ ['\\', 'u', '0', '0'] ++ _ from hd)
    · exact hu d hd
    · simp only [List.mem_cons, List.not_mem_nil, or_false] at hd
      obtain rfl | rfl := hd
      · exact hhigh
      · exact hlow
  · intro d hd
    rw [List.mem_singleton.1 hd]
    exact Nat.not_lt.1 h₈

theorem marks_plain : ∀ t ∈ [Token.beginObject, .endObject, .beginArray, .endArray, .colon, .comma,
    .null, .bool true, .bool false, .discarded], t.text.all (fun c => 0x20 ≤ c.toNat) = true := by
  decide

theorem text_plain {t : Token} (ht : ∀ s, t ≠ .number s) : ∀ c ∈ t.text, 0x20 ≤ c.toNat := by
  cases t with
  | number s => exact absurd rfl (ht s)
  | string s =>
    have hquote : 0x20 ≤ ('"').toNat := by decide
    intro c hc
    obtain rfl | hc := List.mem_cons.1 (show c ∈ '"' :: _ from hc)
    · exact hquote
    · obtain hc | hc := List.mem_append.1 hc
      · obtain ⟨d, -, hc⟩ := List.mem_flatMap.1 hc
        exact escapeChar_plain d c hc
      · rw [List.mem_singleton.1 hc]
        exact hquote
  | bool b => cases b <;> exact plain_of_all (marks_plain _ (by simp))
  | _ => exact plain_of_all (marks_plain _ (by simp))

/-- What is written of anything but numbers is on one line. -/
theorem texts_plain {ts : List Token} (hts : ∀ t ∈ ts, ∀ s, t ≠ .number s) :
    ∀ c ∈ texts ts, 0x20 ≤ c.toNat := by
  intro c hc
  obtain ⟨t, ht, hc⟩ := List.mem_flatMap.1 hc
  exact text_plain (hts t ht) c hc

/-! ## Canonical values -/

/-- A value as a reader builds it: its numbers are spelled as numbers, and the members of its
objects are in the order of their keys. -/
inductive Canonical : Json → Prop where
  | null : Canonical .null
  | bool (b : Bool) : Canonical (.bool b)
  | number {s : String} (h : IsNumber s) : Canonical (.number s)
  | string (s : String) : Canonical (.string s)
  | array {es : List Json} (h : ∀ e ∈ es, Canonical e) : Canonical (.array es)
  | object {ms : List (String × Json)} (hsorted : ms.Pairwise fun m n => m.1 < n.1)
      (h : ∀ m ∈ ms, Canonical m.2) : Canonical (.object ms)

theorem mem_setMember {key : String} {v : Json} {ms : List (String × Json)}
    {m : String × Json} (h : m ∈ setMember key v ms) : m = (key, v) ∨ m ∈ ms := by
  induction ms with
  | nil => simpa [setMember] using h
  | cons n ms ih =>
    simp only [setMember] at h
    split at h
    · simp only [List.mem_cons] at h ⊢
      tauto
    · split at h
      · simp only [List.mem_cons] at h ⊢
        tauto
      · simp only [List.mem_cons] at h ⊢
        obtain rfl | h := h
        · exact .inr (.inl rfl)
        · exact (ih h).imp id .inr

theorem setMember_sorted (key : String) (v : Json) {ms : List (String × Json)}
    (h : ms.Pairwise fun m n => m.1 < n.1) :
    (setMember key v ms).Pairwise fun m n => m.1 < n.1 := by
  induction ms with
  | nil => exact List.pairwise_singleton _ _
  | cons n ms ih =>
    obtain ⟨hn, hms⟩ := List.pairwise_cons.1 h
    simp only [setMember]
    split
    · next heq =>
      refine List.pairwise_cons.2 ⟨fun m hm => ?_, hms⟩
      show key < m.1
      rw [heq]
      exact hn m hm
    · next hne =>
      split
      · next hlt =>
        refine List.pairwise_cons.2 ⟨fun m hm => ?_, h⟩
        obtain rfl | hm := List.mem_cons.1 hm
        · exact hlt
        · exact lt_trans hlt (hn m hm)
      · next hnlt =>
        refine List.pairwise_cons.2 ⟨fun m hm => ?_, ih hms⟩
        obtain rfl | hm := mem_setMember hm
        · exact lt_of_le_of_ne (not_lt.1 hnlt) (Ne.symm hne)
        · exact hn m hm

/-- A key behind all others goes to the end. -/
theorem setMember_last {key : String} (v : Json) {ms : List (String × Json)}
    (h : ∀ m ∈ ms, m.1 < key) : setMember key v ms = ms ++ [(key, v)] := by
  induction ms with
  | nil => rfl
  | cons n ms ih =>
    have hn := h n (List.mem_cons_self ..)
    simp only [setMember, ne_of_gt hn, not_lt_of_gt hn, if_false, List.cons_append]
    rw [ih fun m hm => h m (List.mem_cons_of_mem _ hm)]

/-- Members set in the order of their keys are there as they were set. -/
theorem foldl_setMember {ms acc : List (String × Json)}
    (h : (acc ++ ms).Pairwise fun m n => m.1 < n.1) :
    ms.foldl (fun acc m => setMember m.1 m.2 acc) acc = acc ++ ms := by
  induction ms generalizing acc with
  | nil => simp
  | cons m ms ih =>
    have hlast : ∀ n ∈ acc, n.1 < m.1 := fun n hn =>
      (List.pairwise_append.1 h).2.2 n hn m (List.mem_cons_self ..)
    have hassoc : acc ++ m :: ms = (acc ++ [m]) ++ ms := by simp
    rw [List.foldl_cons, setMember_last m.2 hlast, hassoc]
    exact ih (hassoc ▸ h)

/-! ## What is written is read back -/

/-- The text of the tokens is read as the tokens, whatever is read behind it. -/
def Lexes (ts : List Token) (u : List Char) : Prop :=
  lex .strict (texts ts ++ u) = (lex .strict u).map (ts ++ ·)

theorem Lexes.nil (u : List Char) : Lexes [] u := by
  show lex .strict u = (lex .strict u).map _
  cases lex .strict u <;> rfl

theorem Lexes.append {ts ts' : List Token} {u : List Char} (h : Lexes ts (texts ts' ++ u))
    (h' : Lexes ts' u) : Lexes (ts ++ ts') u := by
  unfold Lexes at *
  rw [texts, List.flatMap_append, List.append_assoc]
  show lex .strict (texts ts ++ (texts ts' ++ u)) = _
  rw [h, h', Option.map_map]
  congr 1
  funext x
  exact (List.append_assoc ..).symm

theorem Lexes.cons {t : Token} {ts : List Token} {u : List Char} (ht : t.Valid)
    (hu : (∃ s, t = .number s) → Boundary (texts ts ++ u)) (h : Lexes ts u) : Lexes (t :: ts) u := by
  have htoken : Lexes [t] (texts ts ++ u) := by
    unfold Lexes
    rw [show texts [t] = t.text from List.flatMap_singleton .., lex_text ht hu]
    rfl
  exact htoken.append h

/-- A token that is no number may be followed by anything. -/
theorem Lexes.mark {t : Token} {ts : List Token} {u : List Char} (ht : t.Valid)
    (hnumber : ∀ s, t ≠ .number s) (h : Lexes ts u) : Lexes (t :: ts) u :=
  .cons ht (fun ⟨s, hs⟩ => absurd hs (hnumber s)) h

theorem boundary_moreElements (es : List Json) {u : List Char} (hu : Boundary u) :
    Boundary (texts (moreElements es) ++ u) := by
  cases es with
  | nil => exact hu
  | cons e es => exact .inl rfl

theorem boundary_moreMembers (ms : List (String × Json)) {u : List Char} (hu : Boundary u) :
    Boundary (texts (moreMembers ms) ++ u) := by
  cases ms with
  | nil => exact hu
  | cons m ms => exact .inl rfl

theorem Lexes.moreElements {es : List Json} {u : List Char} (hu : Boundary u)
    (h : ∀ e ∈ es, ∀ u, Boundary u → Lexes (tokens e) u) : Lexes (moreElements es) u := by
  induction es with
  | nil => exact .nil u
  | cons e es ih =>
    have hes := ih fun e he => h e (List.mem_cons_of_mem _ he)
    exact .mark trivial (by simp)
      (.append (h e (List.mem_cons_self ..) _ (boundary_moreElements es hu)) hes)

theorem Lexes.moreMembers {ms : List (String × Json)} {u : List Char} (hu : Boundary u)
    (h : ∀ m ∈ ms, ∀ u, Boundary u → Lexes (tokens m.2) u) : Lexes (moreMembers ms) u := by
  induction ms with
  | nil => exact .nil u
  | cons m ms ih =>
    have hms := ih fun m hm => h m (List.mem_cons_of_mem _ hm)
    exact .mark trivial (by simp) (.mark trivial (by simp) (.mark trivial (by simp)
      (.append (h m (List.mem_cons_self ..) _ (boundary_moreMembers ms hu)) hms)))

theorem Lexes.object {ms : List (String × Json)} {u : List Char}
    (h : ∀ m ∈ ms, ∀ u, Boundary u → Lexes (tokens m.2) u) : Lexes (tokens (.object ms)) u := by
  cases ms with
  | nil => exact .mark trivial (by simp) (.mark trivial (by simp) (.nil u))
  | cons m ms =>
    have hend : Lexes [.endObject] u := .mark trivial (by simp) (.nil u)
    have hms : Lexes (Json.moreMembers ms) (texts [.endObject] ++ u) :=
      .moreMembers (.inr (.inr rfl)) fun m hm => h m (List.mem_cons_of_mem _ hm)
    refine .mark trivial (by simp) (.mark trivial (by simp) (.mark trivial (by simp)
      (.append (h m (List.mem_cons_self ..) _ ?_) (hms.append hend))))
    rw [texts, List.flatMap_append, List.append_assoc]
    exact boundary_moreMembers ms (.inr (.inr rfl))

/-- **The text of a value is read as its tokens.** -/
theorem lexes_tokens {j : Json} (hj : Canonical j) : ∀ u, Boundary u → Lexes (tokens j) u := by
  induction hj with
  | null | bool | string =>
    intro u hu
    exact .cons trivial (fun _ => hu) (.nil u)
  | number h =>
    intro u hu
    exact .cons h (fun _ => hu) (.nil u)
  | @array es _ ih =>
    intro u hu
    cases es with
    | nil => exact .mark trivial (by simp) (.mark trivial (by simp) (.nil u))
    | cons e es =>
      have hend : Lexes [.endArray] u := .mark trivial (by simp) (.nil u)
      have hes : Lexes (moreElements es) (texts [.endArray] ++ u) :=
        .moreElements (.inr (.inl rfl)) fun e he => ih e (List.mem_cons_of_mem _ he)
      refine .mark trivial (by simp) (.append (ih e (List.mem_cons_self ..) _ ?_) (hes.append hend))
      rw [texts, List.flatMap_append, List.append_assoc]
      exact boundary_moreElements es (.inr (.inl rfl))
  | object _ _ ih => exact fun u _ => .object ih

/-! ### The parser on a value's tokens -/

namespace Parser

theorem run_append (p : Parser) (ts ts' : List Token) :
    p.run (ts ++ ts') = (p.run ts).bind fun q => q.run ts' := by
  simp only [run, List.foldlM_append]
  rfl

theorem run_cons (p : Parser) (t : Token) (ts : List Token) :
    p.run (t :: ts) = (p.step t).bind fun q => q.run ts := by
  simp only [run, List.foldlM_cons]
  rfl

/-- No value's tokens begin with a closing bracket. -/
theorem tokens_head (j : Json) : ∃ t ts, tokens j = t :: ts ∧ t ≠ .endArray := by
  cases j with
  | array es => cases es <;> simp [tokens]
  | object ms => cases ms <;> simp [tokens]
  | _ => simp [tokens]

/-- The first value of an array is one like any other. -/
theorem run_firstValue (j : Json) (ts : List Token) (stack : List Container) :
    (firstValue stack).run (tokens j ++ ts) = (value (.array [] :: stack)).run (tokens j ++ ts) := by
  obtain ⟨t, ts', htokens, ht⟩ := tokens_head j
  rw [htokens, List.cons_append, run_cons, run_cons]
  simp only [step, ht, if_false]

theorem run_moreElements {es : List Json} (hes : ∀ e ∈ es, ∀ stack,
    (value stack).run (tokens e) = some (next stack e)) (stack : List Container)
    (before : List Json) (v : Json) :
    (next (.array before :: stack) v).run (moreElements es ++ [.endArray]) =
      some (next stack (.array (before ++ v :: es))) := by
  induction es generalizing before v with
  | nil => rfl
  | cons e es ih =>
    show (next (.array before :: stack) v).run (.comma :: ((tokens e ++ moreElements es) ++ _)) = _
    rw [run_cons]
    simp only [step, Option.bind_some]
    rw [List.append_assoc, run_append, hes e (List.mem_cons_self ..)]
    simp only [Option.bind_some]
    rw [ih fun e he => hes e (List.mem_cons_of_mem _ he)]
    simp

/-- Members set one after the other; the last of them is still open. -/
theorem run_moreMembers {ms : List (String × Json)} (hms : ∀ m ∈ ms, ∀ stack,
    (value stack).run (tokens m.2) = some (next stack m.2)) (stack : List Container)
    (before : List (String × Json)) (key : String) (v : Json) :
    ∃ before' key' v',
      (next (.object before key :: stack) v).run (moreMembers ms) =
        some (next (.object before' key' :: stack) v') ∧
      setMember key' v' before' =
        ms.foldl (fun acc m => setMember m.1 m.2 acc) (setMember key v before) := by
  induction ms generalizing before key v with
  | nil => exact ⟨before, key, v, rfl, rfl⟩
  | cons m ms ih =>
    obtain ⟨before', key', v', hrun, hset⟩ :=
      ih (fun m hm => hms m (List.mem_cons_of_mem _ hm)) (setMember key v before) m.1 m.2
    refine ⟨before', key', v', ?_, hset⟩
    show (next (.object before key :: stack) v).run
      (.comma :: .string m.1 :: .colon :: (tokens m.2 ++ moreMembers ms)) = _
    rw [run_cons]
    simp only [step, Option.bind_some, run_cons]
    rw [run_append, hms m (List.mem_cons_self ..)]
    exact hrun

/-- An object's members, in any order, up to its closing bracket. -/
theorem run_inOrder {m : String × Json} {ms : List (String × Json)}
    (hms : ∀ n ∈ m :: ms, ∀ stack, (value stack).run (tokens n.2) = some (next stack n.2))
    (stack : List Container) :
    ∃ before key v,
      (value stack).run (.beginObject :: .string m.1 :: .colon :: (tokens m.2 ++ moreMembers ms)) =
        some (next (.object before key :: stack) v) ∧
      setMember key v before = inOrder (m :: ms) := by
  obtain ⟨before, key, v, hrun, hset⟩ :=
    run_moreMembers (fun n hn => hms n (List.mem_cons_of_mem _ hn)) stack [] m.1 m.2
  refine ⟨before, key, v, ?_, hset⟩
  rw [run_cons]
  simp only [step, startValue, Option.bind_some, run_cons]
  rw [run_append, hms m (List.mem_cons_self ..)]
  exact hrun

/-- An object's members, up to its closing bracket. -/
theorem run_members {m : String × Json} {ms : List (String × Json)}
    (hsorted : (m :: ms).Pairwise fun m n => m.1 < n.1)
    (hms : ∀ n ∈ m :: ms, ∀ stack, (value stack).run (tokens n.2) = some (next stack n.2))
    (stack : List Container) :
    ∃ before key v,
      (value stack).run (.beginObject :: .string m.1 :: .colon :: (tokens m.2 ++ moreMembers ms)) =
        some (next (.object before key :: stack) v) ∧
      setMember key v before = m :: ms := by
  obtain ⟨before, key, v, hrun, hset⟩ := run_inOrder hms stack
  exact ⟨before, key, v, hrun, hset.trans (foldl_setMember hsorted)⟩

theorem run_tokens {j : Json} (hj : Canonical j) :
    ∀ stack, (value stack).run (tokens j) = some (next stack j) := by
  induction hj with
  | null | bool | number | string => exact fun stack => rfl
  | @array es _ ih =>
    intro stack
    cases es with
    | nil => rfl
    | cons e es =>
      show (value stack).run (.beginArray :: (tokens e ++ _)) = _
      rw [run_cons]
      simp only [step, startValue, Option.bind_some]
      rw [run_firstValue, run_append, ih e (List.mem_cons_self ..)]
      exact run_moreElements (fun e he => ih e (List.mem_cons_of_mem _ he)) stack [] e
  | @object ms hsorted _ ih =>
    intro stack
    cases ms with
    | nil => rfl
    | cons m ms =>
      obtain ⟨before, key, v, hrun, hset⟩ := run_members hsorted ih stack
      have htokens : tokens (.object (m :: ms)) =
          (.beginObject :: .string m.1 :: .colon :: (tokens m.2 ++ moreMembers ms)) ++
            [.endObject] := by
        simp [tokens]
      rw [htokens, run_append, hrun]
      show some (next stack (.object (setMember key v before))) = _
      rw [hset]

end Parser

theorem lex_dump {j : Json} (hj : Canonical j) : lex .strict (dump j) = some (tokens j) := by
  have h := lexes_tokens hj [] trivial
  rw [Lexes, List.append_nil, lex] at h
  simpa [dump] using h

theorem parseTokens_tokens {j : Json} (hj : Canonical j) : parseTokens (tokens j) = some j := by
  simp only [parseTokens, Parser.run_tokens hj []]

/-- **What is written is read back.** -/
theorem read_dump {j : Json} (hj : Canonical j) : read .strict (dump j) = some j := by
  rw [read, lex_dump hj]
  exact parseTokens_tokens hj

/-! ## Members in any order -/

theorem lex_members {ms : List (String × Json)} (hms : ∀ m ∈ ms, Canonical m.2) :
    lex .strict (dump (.object ms)) = some (tokens (.object ms)) := by
  have h := Lexes.object (u := []) fun m hm => lexes_tokens (hms m hm)
  rw [Lexes, List.append_nil, lex] at h
  simpa [dump] using h

theorem parseTokens_members {ms : List (String × Json)} (hms : ∀ m ∈ ms, Canonical m.2) :
    parseTokens (tokens (.object ms)) = some (.object (inOrder ms)) := by
  cases ms with
  | nil => rfl
  | cons m ms =>
    obtain ⟨before, key, v, hrun, hset⟩ :=
      Parser.run_inOrder (fun n hn => Parser.run_tokens (hms n hn)) []
    have htokens : tokens (.object (m :: ms)) =
        (.beginObject :: .string m.1 :: .colon :: (tokens m.2 ++ moreMembers ms)) ++ [.endObject] := by
      simp [tokens]
    rw [parseTokens, htokens, Parser.run_append, hrun, ← hset]
    rfl

/-! ## What is read is canonical -/

theorem scanned_valid {d : Dialect} {cs rest : List Char} {t : Token}
    (h : lexeme d cs = some (some t, rest)) : t.Valid := by
  cases cs with
  | nil => cases h
  | cons c cs =>
    obtain ⟨-, ht, -⟩ | ⟨-, p, hp, ht, -⟩ | ⟨-, s, -, ht⟩ | ⟨-, ht, -⟩ | ⟨-, s, hs, ht⟩ |
      ⟨-, -, -, -, -, w, hw, ht⟩ := lexeme_cases h
    · cases ht
    · obtain rfl := Option.some.inj ht
      have hmarks : ∀ q ∈ [('{', Token.beginObject), ('}', .endObject), ('[', .beginArray),
          (']', .endArray), (':', .colon), (',', .comma)], q.2.Valid := by
        simp [Token.Valid]
      obtain ⟨l₁, l₂, hl, -⟩ := List.lookup_eq_some_iff.1 hp
      exact hmarks (c, t) (hl ▸ by simp)
    · obtain rfl := Option.some.inj ht
      trivial
    · cases ht
    · obtain rfl := Option.some.inj ht
      exact isNumber_of_scan hs
    · obtain rfl := Option.some.inj ht
      obtain ⟨rfl, -⟩ | ⟨rfl, -⟩ | ⟨rfl, -⟩ := word_some hw <;> trivial

theorem lex_valid {d : Dialect} {cs : List Char} {ts : List Token} (h : lex d cs = some ts) :
    ∀ t ∈ ts, t.Valid := by
  induction cs using lex.induct (d := d) generalizing ts with
  | case1 =>
    rw [lex] at h
    obtain rfl := Option.some.inj h
    simp
  | case2 c cs hend =>
    rw [lex, if_pos hend] at h
    obtain rfl := Option.some.inj h
    simp
  | case3 c cs hend hnone =>
    rw [lex, if_neg hend] at h
    split at h <;> simp_all
  | case4 c cs hend t rest hsome ih =>
    rw [lex, if_neg hend] at h
    split at h
    · simp_all
    · next t' rest' hsome' =>
      rw [hsome] at hsome'
      obtain ⟨rfl, rfl⟩ := Prod.mk.inj (Option.some.inj hsome')
      obtain ⟨ts', hts', rfl⟩ := Option.map_eq_some_iff.1 h
      intro u hu
      obtain hu | hu := List.mem_append.1 hu
      · obtain rfl : t = some u := by simpa [Option.mem_toList] using hu
        exact scanned_valid hsome
      · exact ih hts' u hu

/-- A text that is read as what it was written of is on one line. -/
theorem dump_plain {j : Json} (hj : lex .strict (dump j) = some (tokens j)) : ∀ c ∈ dump j, 0x20 ≤ c.toNat := by
  intro c hc
  obtain ⟨t, ht, hc⟩ := List.mem_flatMap.1 hc
  have hvalid := lex_valid hj t ht
  cases t with
  | number s => exact IsNumber.printable hvalid c hc
  | _ => exact text_plain (fun s h => Token.noConfusion h) c hc

namespace Container

inductive Canonical : Container → Prop where
  | array {es : List Json} (h : ∀ e ∈ es, e.Canonical) : Canonical (.array es)
  | object {ms : List (String × Json)} (hsorted : ms.Pairwise fun m n => m.1 < n.1)
      (h : ∀ m ∈ ms, m.2.Canonical) (key : String) : Canonical (.object ms key)

end Container

namespace Parser

/-- All that the parser has read is canonical. -/
inductive Canonical : Parser → Prop where
  | value {stack} (h : ∀ c ∈ stack, Container.Canonical c) : Canonical (.value stack)
  | firstValue {stack} (h : ∀ c ∈ stack, Container.Canonical c) : Canonical (.firstValue stack)
  | firstKey {stack} (h : ∀ c ∈ stack, Container.Canonical c) : Canonical (.firstKey stack)
  | key {stack ms} (h : ∀ c ∈ stack, Container.Canonical c)
      (hms : Json.Canonical (.object ms)) : Canonical (.key stack ms)
  | colon {stack ms} (h : ∀ c ∈ stack, Container.Canonical c)
      (hms : Json.Canonical (.object ms)) (k : String) : Canonical (.colon stack ms k)
  | next {stack v} (h : ∀ c ∈ stack, Container.Canonical c) (hv : Json.Canonical v) :
      Canonical (.next stack v)

theorem startValue_canonical {stack : List Container} {t : Token} {p : Parser}
    (hstack : ∀ c ∈ stack, c.Canonical) (ht : t.Valid) (h : startValue stack t = some p) :
    p.Canonical := by
  cases t with
  | number s =>
    obtain rfl := Option.some.inj h
    exact .next hstack (.number ht)
  | beginObject =>
    obtain rfl := Option.some.inj h
    exact .firstKey hstack
  | beginArray =>
    obtain rfl := Option.some.inj h
    exact .firstValue hstack
  | null =>
    obtain rfl := Option.some.inj h
    exact .next hstack .null
  | bool b =>
    obtain rfl := Option.some.inj h
    exact .next hstack (.bool b)
  | string s =>
    obtain rfl := Option.some.inj h
    exact .next hstack (.string s)
  | _ => cases h

theorem object_setMember {ms : List (String × Json)} {k : String} {v : Json}
    (hms : Container.Canonical (.object ms k)) (hv : v.Canonical) :
    Json.Canonical (.object (setMember k v ms)) := by
  cases hms with
  | object hsorted h =>
    refine .object (setMember_sorted k v hsorted) fun m hm => ?_
    obtain rfl | hm := mem_setMember hm
    · exact hv
    · exact h m hm

theorem array_push {es : List Json} {v : Json} (hes : Container.Canonical (.array es))
    (hv : v.Canonical) : ∀ e ∈ es ++ [v], e.Canonical := by
  cases hes with
  | array h =>
    intro e he
    obtain he | he := List.mem_append.1 he
    · exact h e he
    · rw [List.mem_singleton.1 he]
      exact hv

theorem step_canonical {p p' : Parser} {t : Token} (hp : p.Canonical) (ht : t.Valid)
    (h : p.step t = some p') : p'.Canonical := by
  unfold step at h
  split at h
  · cases hp with
    | value hstack => exact startValue_canonical hstack ht h
  · cases hp with
    | firstValue hstack =>
      split at h
      · obtain rfl := Option.some.inj h
        exact .next hstack (.array (by simp))
      · refine startValue_canonical (fun c hc => ?_) ht h
        obtain rfl | hc := List.mem_cons.1 hc
        · exact .array (by simp)
        · exact hstack c hc
  · cases hp with
    | firstKey hstack =>
      obtain rfl := Option.some.inj h
      exact .next hstack (.object .nil (by simp))
  · cases hp with
    | firstKey hstack =>
      obtain rfl := Option.some.inj h
      exact .colon hstack (.object .nil (by simp)) _
  · cases hp with
    | key hstack hms =>
      obtain rfl := Option.some.inj h
      exact .colon hstack hms _
  · cases hp with
    | colon hstack hms k =>
      obtain rfl := Option.some.inj h
      refine .value fun c hc => ?_
      obtain rfl | hc := List.mem_cons.1 hc
      · cases hms with
        | object hsorted hms => exact .object hsorted hms _
      · exact hstack c hc
  · cases hp with
    | next hstack hv =>
      obtain rfl := Option.some.inj h
      refine .value fun c hc => ?_
      obtain rfl | hc := List.mem_cons.1 hc
      · exact .array (array_push (hstack _ (List.mem_cons_self ..)) hv)
      · exact hstack c (List.mem_cons_of_mem _ hc)
  · cases hp with
    | next hstack hv =>
      obtain rfl := Option.some.inj h
      exact .next (fun c hc => hstack c (List.mem_cons_of_mem _ hc))
        (.array (array_push (hstack _ (List.mem_cons_self ..)) hv))
  · cases hp with
    | next hstack hv =>
      obtain rfl := Option.some.inj h
      exact .key (fun c hc => hstack c (List.mem_cons_of_mem _ hc))
        (object_setMember (hstack _ (List.mem_cons_self ..)) hv)
  · cases hp with
    | next hstack hv =>
      obtain rfl := Option.some.inj h
      exact .next (fun c hc => hstack c (List.mem_cons_of_mem _ hc))
        (object_setMember (hstack _ (List.mem_cons_self ..)) hv)
  · cases h

theorem run_canonical {p p' : Parser} {ts : List Token} (hp : p.Canonical)
    (hts : ∀ t ∈ ts, t.Valid) (h : p.run ts = some p') : p'.Canonical := by
  induction ts generalizing p with
  | nil =>
    obtain rfl := Option.some.inj h
    exact hp
  | cons t ts ih =>
    rw [run_cons] at h
    obtain ⟨q, hq, hrun⟩ := Option.bind_eq_some_iff.1 h
    exact ih (step_canonical hp (hts t (List.mem_cons_self ..)) hq)
      (fun t ht => hts t (List.mem_cons_of_mem _ ht)) hrun

end Parser

theorem parseTokens_some {ts : List Token} {v : Json} (h : parseTokens ts = some v) :
    (Parser.value []).run ts = some (.next [] v) := by
  unfold parseTokens at h
  split at h
  · next heq =>
    obtain rfl := Option.some.inj h
    exact heq
  · cases h

/-- **What is read is canonical.** -/
theorem read_canonical {d : Dialect} {text : List Char} {v : Json} (h : read d text = some v) :
    v.Canonical := by
  obtain ⟨ts, hts, hv⟩ := Option.bind_eq_some_iff.1 h
  have hp := Parser.run_canonical (p := .value []) (.value (by simp)) (lex_valid hts)
    (parseTokens_some hv)
  cases hp with
  | next _ hv => exact hv

/-! ## A text put into another -/

/-- The tokens of a text are the same in front of a boundary. -/
theorem lex_append {cs u : List Char} {ts : List Token} (hu : Boundary u)
    (h : lex .strict cs = some ts) :
    lex .strict (cs ++ u) = (lex .strict u).map (ts ++ ·) := by
  induction cs using lex.induct (d := .strict) generalizing ts with
  | case1 =>
    rw [lex] at h
    obtain rfl := Option.some.inj h
    exact Lexes.nil u
  | case2 c cs hend => cases hend
  | case3 c cs hend hnone =>
    rw [lex_none (by simp) hnone] at h
    cases h
  | case4 c cs hend t rest hsome ih =>
    rw [lex_lexeme hsome] at h
    obtain ⟨ts', hts', rfl⟩ := Option.map_eq_some_iff.1 h
    rw [lex_lexeme (lexeme_append hu hsome), ih hts', Option.map_map]
    congr 1
    funext x
    exact (List.append_assoc ..).symm

namespace Parser

/-- The parser with more open brackets around all it has. -/
def inside (below : List Container) : Parser → Parser
  | .value stack => .value (stack ++ below)
  | .firstValue stack => .firstValue (stack ++ below)
  | .firstKey stack => .firstKey (stack ++ below)
  | .key stack ms => .key (stack ++ below) ms
  | .colon stack ms k => .colon (stack ++ below) ms k
  | .next stack v => .next (stack ++ below) v

theorem startValue_inside {stack : List Container} {t : Token} {p : Parser}
    (below : List Container) (h : startValue stack t = some p) :
    startValue (stack ++ below) t = some (p.inside below) := by
  cases t <;> first | (obtain rfl := Option.some.inj h; rfl) | cases h

/-- A step looks at the innermost bracket only. -/
theorem step_inside {p p' : Parser} {t : Token} (below : List Container)
    (h : p.step t = some p') : (p.inside below).step t = some (p'.inside below) := by
  unfold step at h
  split at h
  · exact startValue_inside below h
  · simp only [inside, step]
    split at h
    · next hend =>
      obtain rfl := Option.some.inj h
      rw [if_pos hend]
    · next hend =>
      rw [if_neg hend]
      exact startValue_inside below h
  all_goals first | (obtain rfl := Option.some.inj h; rfl) | cases h

theorem run_inside {p p' : Parser} {ts : List Token} (below : List Container)
    (h : p.run ts = some p') : (p.inside below).run ts = some (p'.inside below) := by
  induction ts generalizing p with
  | nil =>
    obtain rfl := Option.some.inj h
    rfl
  | cons t ts ih =>
    rw [run_cons] at h ⊢
    obtain ⟨q, hq, hrun⟩ := Option.bind_eq_some_iff.1 h
    rw [step_inside below hq]
    exact ih hrun

end Parser

/-- An object's text up to its closing brace, and the beginning of one more member. -/
def openMember (ms : List (String × Json)) (key : String) : List Char :=
  (dump (.object ms)).dropLast ++ texts [.comma, .string key, .colon]

theorem openMember_eq (m : String × Json) (ms : List (String × Json)) (key : String) :
    openMember (m :: ms) key =
      texts ((.beginObject :: .string m.1 :: .colon :: (tokens m.2 ++ moreMembers ms)) ++
        [.comma, .string key, .colon]) := by
  have htokens : tokens (.object (m :: ms)) =
      (.beginObject :: .string m.1 :: .colon :: (tokens m.2 ++ moreMembers ms)) ++ [.endObject] := by
    simp [tokens]
  rw [openMember, dump, htokens]
  unfold texts
  rw [List.flatMap_append, List.flatMap_append]
  congr 1
  exact List.dropLast_concat ..

/-- Reading goes on behind it. -/
theorem lexes_openMember {m : String × Json} {ms : List (String × Json)} (key : String)
    (hms : Canonical (.object (m :: ms))) (u : List Char) :
    Lexes ((.beginObject :: .string m.1 :: .colon :: (tokens m.2 ++ moreMembers ms)) ++
      [.comma, .string key, .colon]) u := by
  cases hms with
  | object _ h =>
    have hkey : Lexes [.comma, .string key, .colon] u :=
      .mark trivial (by simp) (.mark trivial (by simp) (.mark trivial (by simp) (.nil u)))
    have hcomma : Boundary (texts [.comma, .string key, .colon] ++ u) := .inl rfl
    have hmore := Lexes.moreMembers hcomma fun n hn =>
      lexes_tokens (h n (List.mem_cons_of_mem _ hn))
    have hfirst := lexes_tokens (h m (List.mem_cons_self ..)) _ (boundary_moreMembers ms hcomma)
    exact .append (.mark trivial (by simp) (.mark trivial (by simp) (.mark trivial (by simp)
      (hfirst.append hmore)))) hkey

/-- **A text put into an object's as one more member is read as that member.** -/
theorem read_splice {m : String × Json} {ms : List (String × Json)} {text : List Char} {v : Json}
    (key : String) (hms : Canonical (.object (m :: ms))) (h : read .strict text = some v) :
    read .strict (openMember (m :: ms) key ++ text ++ ['}']) =
      some (.object (setMember key v (m :: ms))) := by
  obtain ⟨ts, hts, hv⟩ := Option.bind_eq_some_iff.1 h
  have hlex := lexes_openMember key hms (text ++ ['}'])
  have hbrace : lex .strict ['}'] = some [.endObject] := by
    rw [lex_lexeme rfl, lex]
    rfl
  have hend : Boundary ['}'] := .inr (.inr rfl)
  rw [Lexes, ← openMember_eq, lex_append hend hts, hbrace] at hlex
  rw [List.append_assoc, read, hlex]
  simp only [Option.map_some, Option.bind_some]
  cases hms with
  | object hsorted hall =>
    obtain ⟨before, k, w, hrun, hset⟩ :=
      Parser.run_members hsorted (fun n hn => Parser.run_tokens (hall n hn)) []
    have hvalue : (Parser.value [.object (m :: ms) key]).run ts =
        some (.next [.object (m :: ms) key] v) :=
      Parser.run_inside [.object (m :: ms) key] (parseTokens_some hv)
    unfold parseTokens
    rw [List.append_assoc, Parser.run_append, hrun]
    show (match (Parser.next [.object before k] w).run
      (.comma :: .string key :: .colon :: (ts ++ [.endObject])) with | some (.next [] v) => some v | _ => none) = _
    simp only [Parser.run_cons, Parser.step, Option.bind_some, hset]
    rw [Parser.run_append, hvalue]
    rfl

/-- **What reads inside an object reads alone**, if the lenient dialect reads it alone. -/
theorem read_of_splice {inRange : String → Bool} {m : String × Json} {ms : List (String × Json)}
    {key : String} {text : List Char} {v : Json} (hms : Canonical (.object (m :: ms)))
    (h : read (.lenient inRange) text = some v)
    (hsplice : read .strict (openMember (m :: ms) key ++ text ++ ['}']) ≠ none) :
    read .strict text = some v := by
  obtain ⟨ts, hts, hv⟩ := Option.bind_eq_some_iff.1 h
  have hbrace : lex .strict (text ++ ['}']) ≠ none := by
    intro hnone
    have hlex := lexes_openMember key hms (text ++ ['}'])
    rw [Lexes, ← openMember_eq, hnone] at hlex
    exact hsplice (by rw [List.append_assoc, read, hlex]; rfl)
  rw [read, lex_strict_of_lenient hts hbrace]
  exact hv

/-- The parser reads what the strict dialect reads, if it can hold the numbers. -/
theorem parse_of_read {inRange : String → Bool} {text : List Char} {ts : List Token} {v : Json}
    (hts : lex .strict text = some ts) (hv : parseTokens ts = some v)
    (hrange : ∀ s, .number s ∈ ts → inRange s = true) : parse inRange text = v := by
  have hread : read (.lenient inRange) text = some v := by
    rw [read, lex_lenient hts hrange]
    exact hv
  unfold parse
  split
  · next text =>
    rw [lex_none (by simp) rfl] at hts
    cases hts
  · rw [hread]
    rfl

/-- **A text that reads inside an object reads alone**, as what the parser makes of it. A byte
order mark, which the parser skips, is no JSON there. -/
theorem parse_of_splice {inRange : String → Bool} {m : String × Json} {ms : List (String × Json)}
    {text : List Char} (key : String) (hms : Canonical (.object (m :: ms)))
    (h : parse inRange text ≠ .discarded)
    (hsplice : read .strict (openMember (m :: ms) key ++ text ++ ['}']) ≠ none) :
    read .strict text = some (parse inRange text) := by
  have hparse : ∀ {r : Option Json}, r.getD .discarded ≠ .discarded → r = some (r.getD .discarded) := by
    intro r hr
    cases r with
    | none => exact absurd rfl hr
    | some v => rfl
  unfold parse at h ⊢
  split at h
  · next text =>
    have hmark : lex .strict ('\uFEFF' :: text ++ ['}']) = none := lex_none (by simp) rfl
    have hlex := lexes_openMember key hms ('\uFEFF' :: text ++ ['}'])
    rw [Lexes, ← openMember_eq, hmark] at hlex
    exact absurd (by rw [List.append_assoc, read, hlex]; rfl) hsplice
  · exact read_of_splice hms (hparse h) hsplice

end Jovian.Json
