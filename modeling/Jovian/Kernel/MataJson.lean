import Jovian.Kernel.StataData
import Mathlib.Tactic.IntervalCases

/-!
# MataJson — what Mata writes is read as what it says (`callisto_write`)

* `callistoWrite_eq` — the escapes, made one after the other in the whole text, are those of its characters.
* `Reads` — a text, once written, is read as a value, whatever follows it; a cell is, and an array of such texts is.
* **`Reads.mataJson`** — the kernel reads what Mata wrote.
-/

namespace Jovian.StataData

open Json (Token tokens lex Boundary Canonical IsNumber character scanString)

/-! ## The escapes, a character at a time -/

theorem subinstr_append (c : Char) (w a b : List Char) : subinstr c w (a ++ b) = subinstr c w a ++ subinstr c w b :=
  List.flatMap_append ..

theorem subinstr_of_not_mem {c : Char} {w text : List Char} (h : c ∉ text) : subinstr c w text = text := by
  induction text with
  | nil => rfl
  | cons d text ih =>
    have hd : d ≠ c := fun hd => h (hd ▸ List.mem_cons_self ..)
    have hrest := ih fun hc => h (List.mem_cons_of_mem _ hc)
    show (if d = c then w else [d]) ++ subinstr c w text = d :: text
    rw [if_neg hd, hrest]
    rfl

/-- The replacements of `escapeControls`, for some of the characters. -/
def escapes (is : List Nat) (text : List Char) : List Char :=
  is.foldl (fun text i => subinstr (Char.ofNat i) (controlEscape i) text) text

theorem escapes_append (is : List Nat) (a b : List Char) : escapes is (a ++ b) = escapes is a ++ escapes is b := by
  induction is generalizing a b with
  | nil => rfl
  | cons i is ih =>
    show escapes is (subinstr _ _ (a ++ b)) = _
    rw [subinstr_append, ih]
    rfl

theorem escapes_of_not_mem {is : List Nat} {text : List Char} (h : ∀ i ∈ is, Char.ofNat i ∉ text) :
    escapes is text = text := by
  induction is with
  | nil => rfl
  | cons i is ih =>
    show escapes is (subinstr _ _ text) = text
    rw [subinstr_of_not_mem (h i (List.mem_cons_self ..))]
    exact ih fun j hj => h j (List.mem_cons_of_mem _ hj)

theorem toNat_ofNat_control {i : Nat} (h : i ∈ List.range' 1 31) : (Char.ofNat i).toNat = i := by
  have hi : i < 32 := by
    have := List.mem_range'_1.1 h
    omega
  interval_cases i <;> rfl

/-- Without a control character there is nothing to escape. -/
theorem escapeControls_of_any {text : List Char} (h : text.any (fun c => 1 ≤ c.toNat && c.toNat ≤ 31) = false) :
    escapeControls text = text := by
  apply escapes_of_not_mem
  intro i hi hc
  have hcontrol := List.any_eq_false.1 h _ hc
  rw [toNat_ofNat_control hi] at hcontrol
  have := List.mem_range'_1.1 hi
  simp only [Bool.and_eq_true, decide_eq_true_eq, not_and] at hcontrol
  omega

theorem callistoWrite_escapes (text : List Char) :
    callistoWrite text =
      escapeControls (subinstr '\t' ['\\', 't'] (subinstr '\r' ['\\', 'r'] (subinstr '\n' ['\\', 'n'] text))) := by
  simp only [callistoWrite]
  split
  · rfl
  · next h => exact (escapeControls_of_any (Bool.eq_false_iff.2 h)).symm

theorem callistoWrite_append (a b : List Char) : callistoWrite (a ++ b) = callistoWrite a ++ callistoWrite b := by
  simp only [callistoWrite_escapes, subinstr_append]
  exact escapes_append ..

theorem callistoWrite_cons (c : Char) (cs : List Char) :
    callistoWrite (c :: cs) = callistoWrite [c] ++ callistoWrite cs :=
  callistoWrite_append [c] cs

/-- A character that is no control character is written as it is. -/
theorem callistoWrite_char {c : Char} (h : 0x20 ≤ c.toNat) : callistoWrite [c] = [c] := by
  have hne : ∀ d : Char, d.toNat < 0x20 → d ∉ [c] := by
    intro d hd hmem
    rw [List.mem_singleton.1 hmem] at hd
    omega
  rw [callistoWrite_escapes, subinstr_of_not_mem (hne '\n' (by decide)), subinstr_of_not_mem (hne '\r' (by decide)),
    subinstr_of_not_mem (hne '\t' (by decide))]
  apply escapes_of_not_mem
  intro i hi
  apply hne
  rw [toNat_ofNat_control hi]
  have := List.mem_range'_1.1 hi
  omega

theorem callistoWrite_plain {text : List Char} (h : ∀ c ∈ text, 0x20 ≤ c.toNat) : callistoWrite text = text := by
  induction text with
  | nil => rfl
  | cons c cs ih =>
    rw [callistoWrite_cons, callistoWrite_char (h c (List.mem_cons_self ..)),
      ih fun d hd => h d (List.mem_cons_of_mem _ hd)]
    rfl

/-! ## Strings -/

/-- The backslash and the quote of a cell. -/
def quotes (s : List Char) : List Char := subinstr '"' ['\\', '"'] (subinstr '\\' ['\\', '\\'] s)

theorem quotes_append (a b : List Char) : quotes (a ++ b) = quotes a ++ quotes b := by
  unfold quotes
  rw [subinstr_append, subinstr_append]

/-- **A character of a cell is read as itself**, but for NUL. -/
theorem character_written {c : Char} (hc : c ≠ '\x00') (u : List Char) :
    character (callistoWrite (quotes [c]) ++ u) = some (some c, u) := by
  by_cases hlow : c.toNat < 0x20
  · -- one that Mata escapes
    have hofNat : c = Char.ofNat c.toNat := (Char.ofNat_toNat c).symm
    generalize c.toNat = n at hofNat hlow
    subst hofNat
    interval_cases n
    · exact absurd rfl hc
    all_goals rfl
  · by_cases hquote : c = '"'
    · subst hquote
      rfl
    · by_cases hslash : c = '\\'
      · subst hslash
        rfl
      · have hquotes : quotes [c] = [c] := by
          have hq : ('"' : Char) ∉ [c] := fun h => hquote (List.mem_singleton.1 h).symm
          have hs : ('\\' : Char) ∉ [c] := fun h => hslash (List.mem_singleton.1 h).symm
          unfold quotes
          rw [subinstr_of_not_mem hs, subinstr_of_not_mem hq]
        rw [hquotes, callistoWrite_char (by omega)]
        simp only [List.cons_append, List.nil_append, character, hquote, hslash, hlow, if_false]

theorem scanString_written {s : List Char} (hs : '\x00' ∉ s) (u : List Char) :
    scanString (callistoWrite (quotes s) ++ '"' :: u) = some (s, u) := by
  induction s with
  | nil => exact Json.scanString_end rfl
  | cons c s ih =>
    have hc : c ≠ '\x00' := fun hc => hs (hc ▸ List.mem_cons_self ..)
    have hrest := ih fun h => hs (List.mem_cons_of_mem _ h)
    have hsplit : callistoWrite (quotes (c :: s)) = callistoWrite (quotes [c]) ++ callistoWrite (quotes s) := by
      rw [← callistoWrite_append, ← quotes_append]
      rfl
    rw [hsplit, List.append_assoc, Json.scanString_cons (character_written hc _), hrest]
    rfl

/-! ## What is read -/

/-- The text, once written, is read as the value, whatever follows it. -/
structure Reads (inRange : String → Bool) (w : List Char) (j : Json) : Prop where
  canonical : j.Canonical
  inRange : ∀ s, .number s ∈ tokens j → inRange s = true
  lexes : ∀ u, Boundary u → lex .strict (callistoWrite w ++ u) = (lex .strict u).map (tokens j ++ ·)

variable {inRange : String → Bool}

theorem Reads.string {s : List Char} (hs : '\x00' ∉ s) : Reads inRange (jstrv s) (.string (String.ofList s)) := by
  refine ⟨.string _, fun t ht => ?_, fun u _ => ?_⟩
  · simp [tokens] at ht
  · have hwritten : callistoWrite (jstrv s) ++ u = '"' :: (callistoWrite (quotes s) ++ '"' :: u) := by
      show callistoWrite (['"'] ++ quotes s ++ ['"']) ++ u = _
      rw [callistoWrite_append, callistoWrite_append, callistoWrite_char (by decide)]
      simp
    have hlexeme : Json.lexeme .strict (callistoWrite (jstrv s) ++ u) =
        some (some (.string (String.ofList s)), u) := by
      rw [hwritten, Json.lexeme_quote, scanString_written hs]
      rfl
    rw [Json.lex_lexeme hlexeme]
    rfl

/-- What is written as it is, is read as the value whose text it is. -/
theorem Reads.token {w : List Char} {j : Json} {t : Token} (hj : j.Canonical) (ht : tokens j = [t]) (htext : t.text = w)
    (hplain : ∀ c ∈ w, 0x20 ≤ c.toNat) (hrange : ∀ s, t = .number s → inRange s = true) : Reads inRange w j := by
  refine ⟨hj, fun s hs => ?_, fun u hu => ?_⟩
  · rw [ht, List.mem_singleton] at hs
    exact hrange s hs.symm
  · have hlexes := Json.lexes_tokens hj u hu
    rw [Json.Lexes, ht, show Json.texts [t] = t.text from List.flatMap_singleton .., htext] at hlexes
    rw [callistoWrite_plain hplain, ht]
    exact hlexes

theorem Reads.number {s : String} (hs : IsNumber s) (hrange : inRange s = true) :
    Reads inRange s.toList (.number s) :=
  .token (.number hs) rfl rfl hs.printable fun t ht => by
    obtain rfl := Token.number.inj ht
    exact hrange

theorem Reads.null : Reads inRange "null".toList .null :=
  .token .null rfl rfl (Json.plain_of_all rfl) nofun

/-! ## Arrays -/

theorem invtokens_cons (x : List Char) {xs : List (List Char)} (h : xs ≠ []) :
    invtokens (x :: xs) = x ++ ',' :: invtokens xs := by
  rw [invtokens, List.intercalate_cons_of_ne_nil h]
  simp [invtokens]

theorem callistoWrite_comma (cs : List Char) : callistoWrite (',' :: cs) = ',' :: callistoWrite cs := by
  rw [callistoWrite_cons, callistoWrite_char (by decide)]
  rfl

/-- A mark, and what follows it. -/
theorem lex_mark {c : Char} {t : Token} (cs : List Char) (h : ∀ cs, Json.lexeme .strict (c :: cs) = some (some t, cs)) :
    lex .strict (c :: cs) = (lex .strict cs).map (t :: ·) :=
  Json.lex_lexeme (h cs)

/-- The elements behind the first, and the bracket. -/
theorem lexes_more {w : List Char} {ws : List (List Char)} {e : Json} {es : List Json} (hw : Reads inRange w e)
    (h : List.Forall₂ (Reads inRange) ws es) (u : List Char) :
    lex .strict (callistoWrite (invtokens (w :: ws)) ++ ']' :: u) =
      (lex .strict u).map (tokens e ++ (Json.moreElements es ++ [.endArray]) ++ ·) := by
  induction h generalizing w e with
  | nil =>
    rw [show invtokens [w] = w from List.intercalate_singleton, hw.lexes (']' :: u) (.inr (.inl rfl)),
      lex_mark u fun _ => rfl, Option.map_map]
    congr 1
    funext ts
    simp [Json.moreElements]
  | @cons w' e' ws es hw' _ ih =>
    rw [invtokens_cons _ (List.cons_ne_nil _ _), callistoWrite_append, callistoWrite_comma, List.append_assoc,
      hw.lexes (',' :: callistoWrite (invtokens (w' :: ws)) ++ ']' :: u) (.inl rfl)]
    rw [List.cons_append, lex_mark _ fun _ => rfl, ih hw', Option.map_map, Option.map_map]
    congr 1
    funext ts
    simp [Json.moreElements]

theorem Reads.of_mem {ws : List (List Char)} {es : List Json} (h : List.Forall₂ (Reads inRange) ws es) {e : Json}
    (he : e ∈ es) : ∃ w, Reads inRange w e := by
  induction h with
  | nil => cases he
  | @cons w e' _ _ hw _ ih =>
    cases he with
    | head => exact ⟨w, hw⟩
    | tail _ he => exact ih he

/-- The numbers of an array are those of its elements. -/
theorem number_of_array {s : String} {es : List Json} (h : .number s ∈ tokens (.array es)) :
    ∃ e ∈ es, .number s ∈ tokens e := by
  have hmore : ∀ es : List Json, .number s ∈ Json.moreElements es → ∃ e ∈ es, .number s ∈ tokens e := by
    intro es h
    induction es with
    | nil => simp [Json.moreElements] at h
    | cons e es ih =>
      simp only [Json.moreElements, List.mem_cons, List.mem_append, reduceCtorEq, false_or] at h
      cases h with
      | inl h => exact ⟨e, List.mem_cons_self .., h⟩
      | inr h =>
        obtain ⟨e', he', hs⟩ := ih h
        exact ⟨e', List.mem_cons_of_mem _ he', hs⟩
  cases es with
  | nil => simp [tokens] at h
  | cons e es =>
    apply hmore
    simp only [tokens, Json.moreElements, List.mem_cons, List.mem_append, reduceCtorEq, false_or, or_false,
      List.not_mem_nil] at h ⊢
    exact h

/-- **An array of what is read is read as the array.** -/
theorem Reads.array {ws : List (List Char)} {es : List Json} (h : List.Forall₂ (Reads inRange) ws es) :
    Reads inRange (['['] ++ invtokens ws ++ [']']) (.array es) := by
  refine ⟨.array fun e he => (Reads.of_mem h he).elim fun _ hw => hw.canonical, fun s hs => ?_, fun u _ => ?_⟩
  · obtain ⟨e, he, hs⟩ := number_of_array hs
    obtain ⟨w, hw⟩ := Reads.of_mem h he
    exact hw.inRange s hs
  · have hwritten : callistoWrite (['['] ++ invtokens ws ++ [']']) ++ u = '[' :: (callistoWrite (invtokens ws) ++ ']' :: u) := by
      rw [callistoWrite_append, callistoWrite_append, callistoWrite_char (by decide), callistoWrite_char (by decide)]
      simp
    rw [hwritten, lex_mark _ fun _ => rfl]
    cases h with
    | nil =>
      show (lex .strict (']' :: u)).map _ = _
      rw [lex_mark u fun _ => rfl, Option.map_map]
      rfl
    | cons hw hws =>
      rw [lexes_more hw hws u, Option.map_map]
      congr 1

/-! ## The file -/

theorem decoded_bytes (cs : List Char) : decoded (bytes cs) = cs := by
  have hdecode : Utf8.decode (bytes cs) = some cs := Utf8.decode_eq_some_iff.2 rfl
  have htext : Utf8.isText (bytes cs) = true := by
    rw [Utf8.isText_eq, hdecode]
    rfl
  have hutf8 : utf8 (bytes cs) = bytes cs := by
    have := Utf8Decoder.decodeFrom_finish (bytes cs)
    rw [Utf8Decoder.reference_of_isText htext] at this
    exact this
  rw [decoded, hutf8, hdecode]
  rfl

/-- **What Mata wrote is read.** -/
theorem Reads.mataJson {D : Type} {st : Stata D} {w : List Char} {j : Json} (h : Reads st.inRange w j) :
    mataJson st (callistoWrite w) = some j := by
  have hlex : lex .strict (callistoWrite w) = some (tokens j) := by
    have := h.lexes [] trivial
    rw [List.append_nil, Json.lex] at this
    simpa using this
  have hparse := Json.parse_of_read hlex (Json.parseTokens_tokens h.canonical) h.inRange
  unfold StataData.mataJson
  rw [decoded_bytes, hparse]
  cases h.canonical <;> rfl

end Jovian.StataData
