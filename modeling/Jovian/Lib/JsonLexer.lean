import Jovian.Lib.Json
import Mathlib.Data.List.DropRight
import Mathlib.Tactic.IntervalCases

/-!
# Jovian — the tokens of a JSON text

A lexer over characters, in two dialects: the strict one of the standard, and the lenient one of
a reader that ignores comments, ends at a NUL, and refuses numbers it cannot hold.

* **`lexeme_append`** — a token is the same whatever follows it, as long as what follows does not
  go on with it (`Boundary`).
* **`lex_strict_of_lenient`** — what the lenient dialect reads has the same tokens in the strict
  one, wherever that one reads it in front of a closing brace: no comment can hide there.
* **`lex_text`** — the text of a token is read as that token.
-/

namespace Jovian.Json

inductive Token where
  | beginObject | endObject | beginArray | endArray | colon | comma
  | null | bool (b : Bool)
  | number (spelling : String)
  | string (s : String)
  /-- What is written for a value that is none. No text is read as this. -/
  | discarded
deriving DecidableEq, Repr

inductive Dialect where
  | strict
  /-- Comments are blanks, and a number is refused where `inRange` is false. -/
  | lenient (inRange : String → Bool)

/-- What follows a token does not go on with it: the end, a comma or a closing bracket. -/
def Boundary : List Char → Prop
  | [] => True
  | c :: _ => c = ',' ∨ c = ']' ∨ c = '}'

/-! ## Numbers -/

def digits (cs : List Char) : Option (List Char × List Char) :=
  if cs.takeWhile Char.isDigit = [] then none
  else some (cs.takeWhile Char.isDigit, cs.dropWhile Char.isDigit)

def integerPart : List Char → Option (List Char × List Char)
  | '0' :: cs => some (['0'], cs)
  | cs => digits cs

def fraction : List Char → Option (List Char × List Char)
  | '.' :: cs => (digits cs).map fun r => ('.' :: r.1, r.2)
  | cs => some ([], cs)

/-- The sign and the digits of an exponent. -/
def exponentDigits : List Char → Option (List Char × List Char)
  | '+' :: cs => (digits cs).map fun r => ('+' :: r.1, r.2)
  | '-' :: cs => (digits cs).map fun r => ('-' :: r.1, r.2)
  | cs => digits cs

def exponent : List Char → Option (List Char × List Char)
  | 'e' :: cs => (exponentDigits cs).map fun r => ('e' :: r.1, r.2)
  | 'E' :: cs => (exponentDigits cs).map fun r => ('E' :: r.1, r.2)
  | cs => some ([], cs)

/-- One scanner after the other. -/
def andThen (p q : List Char → Option (List Char × List Char)) (cs : List Char) :
    Option (List Char × List Char) :=
  (p cs).bind fun r => (q r.2).map fun r' => (r.1 ++ r'.1, r'.2)

def unsignedNumber : List Char → Option (List Char × List Char) :=
  andThen integerPart (andThen fraction exponent)

def scanNumber : List Char → Option (List Char × List Char)
  | '-' :: cs => (unsignedNumber cs).map fun r => ('-' :: r.1, r.2)
  | cs => unsignedNumber cs

/-- A number as JSON spells it. -/
def IsNumber (spelling : String) : Prop :=
  scanNumber spelling.toList = some (spelling.toList, [])

/-! ## Strings -/

def hexDigit (c : Char) : Option Nat :=
  if '0' ≤ c ∧ c ≤ '9' then some (c.toNat - '0'.toNat)
  else if 'a' ≤ c ∧ c ≤ 'f' then some (c.toNat - 'a'.toNat + 10)
  else if 'A' ≤ c ∧ c ≤ 'F' then some (c.toNat - 'A'.toNat + 10)
  else none

def hex4 : List Char → Option (Nat × List Char)
  | a :: b :: c :: d :: rest => do
    let a ← hexDigit a
    let b ← hexDigit b
    let c ← hexDigit c
    let d ← hexDigit d
    return (((a * 16 + b) * 16 + c) * 16 + d, rest)
  | _ => none

/-- The second half of a surrogate pair. -/
def lowSurrogate (high : Nat) : List Char → Option (Char × List Char)
  | '\\' :: 'u' :: cs => (hex4 cs).bind fun r =>
    if 0xDC00 ≤ r.1 ∧ r.1 ≤ 0xDFFF then
      some (Char.ofNat (0x10000 + (high - 0xD800) * 0x400 + (r.1 - 0xDC00)), r.2)
    else none
  | _ => none

/-- `\uXXXX`; a surrogate must be the first of a pair. -/
def unicodeEscape (cs : List Char) : Option (Char × List Char) :=
  (hex4 cs).bind fun r =>
    if 0xD800 ≤ r.1 ∧ r.1 ≤ 0xDBFF then lowSurrogate r.1 r.2
    else if 0xDC00 ≤ r.1 ∧ r.1 ≤ 0xDFFF then none
    else some (Char.ofNat r.1, r.2)

/-- The character a letter after a backslash stands for. -/
def simpleEscape (c : Char) : Option Char :=
  [('"', '"'), ('\\', '\\'), ('/', '/'), ('b', '\x08'), ('f', '\x0c'), ('n', '\n'), ('r', '\r'),
    ('t', '\t')].lookup c

/-- A character of a string; `none` is its closing quote. -/
def character : List Char → Option (Option Char × List Char)
  | [] => none
  | c :: cs =>
    if c = '"' then some (none, cs)
    else if c = '\\' then
      match cs with
      | [] => none
      | e :: cs =>
        if e = 'u' then (unicodeEscape cs).map fun r => (some r.1, r.2)
        else (simpleEscape e).map fun c => (some c, cs)
    else if c.toNat < 0x20 then none
    else some (some c, cs)

/-! ## Tokens -/

def isBlank (c : Char) : Bool :=
  c = ' ' || c = '\t' || c = '\n' || c = '\r'

def punctuation (c : Char) : Option Token :=
  [('{', .beginObject), ('}', .endObject), ('[', .beginArray), (']', .endArray), (':', .colon),
    (',', Token.comma)].lookup c

/-- What is left after a word. -/
def afterWord : List Char → List Char → Option (List Char)
  | [], cs => some cs
  | _ :: _, [] => none
  | w :: word, c :: cs => if w = c then afterWord word cs else none

def word (cs : List Char) : Option (Token × List Char) :=
  ((afterWord "true".toList cs).map fun rest => (.bool true, rest)).or
    (((afterWord "false".toList cs).map fun rest => (.bool false, rest)).or
      ((afterWord "null".toList cs).map fun rest => (.null, rest)))

/-- `/* … */`, after its beginning. -/
def blockComment : List Char → Option (List Char)
  | '*' :: '/' :: cs => some cs
  | '\x00' :: _ => none
  | _ :: cs => blockComment cs
  | [] => none

/-- A comment, after its first slash. -/
def comment : List Char → Option (List Char)
  | '/' :: cs => some ((cs.dropWhile fun c => c ≠ '\n' && c ≠ '\r' && c ≠ '\x00').drop 1)
  | '*' :: cs => blockComment cs
  | _ => none

/-! ## What a scanner looks at -/

/-- What comes next does not go on with a number. -/
def Ends (cs : List Char) : Prop :=
  ∀ c, cs.head? = some c → c.isDigit = false ∧ c ≠ '.' ∧ c ≠ 'e' ∧ c ≠ 'E'

/-- A scanner splits off a prefix, and of what is left it has seen at most the head. -/
def Local (p : List Char → Option (List Char × List Char)) : Prop :=
  ∀ cs a rest, p cs = some (a, rest) →
    cs = a ++ rest ∧
      ∀ rest', rest'.head? = rest.head? ∨ Ends rest' → p (a ++ rest') = some (a, rest')

theorem head_append (b : List Char) {rest rest' : List Char}
    (h : rest'.head? = rest.head? ∨ Ends rest') :
    (b ++ rest').head? = (b ++ rest).head? ∨ Ends (b ++ rest') := by
  cases b with
  | nil => exact h
  | cons c b => exact .inl rfl

theorem Local.andThen {p q : List Char → Option (List Char × List Char)} (hp : Local p)
    (hq : Local q) : Local (andThen p q) := by
  intro cs a rest h
  simp only [Json.andThen, Option.bind_eq_some_iff, Option.map_eq_some_iff, Prod.exists] at h
  obtain ⟨a₁, r₁, h₁, b, r₂, h₂, heq⟩ := h
  obtain ⟨rfl, rfl⟩ := Prod.mk.inj heq
  obtain ⟨rfl, hp'⟩ := hp cs a₁ r₁ h₁
  obtain ⟨rfl, hq'⟩ := hq r₁ b r₂ h₂
  refine ⟨(List.append_assoc ..).symm, fun rest' hrest => ?_⟩
  have h₁' := hp' (b ++ rest') (head_append b hrest)
  simp only [Json.andThen, List.append_assoc, h₁', Option.bind_some, hq' rest' hrest,
    Option.map_some]

theorem digits_some {cs ds rest : List Char} (h : digits cs = some (ds, rest)) :
    ds ≠ [] ∧ (∀ c ∈ ds, c.isDigit = true) ∧ cs = ds ++ rest ∧
      ∀ c, rest.head? = some c → c.isDigit = false := by
  unfold digits at h
  split at h
  · cases h
  · next hne =>
    obtain ⟨rfl, rfl⟩ := Prod.mk.inj (Option.some.inj h)
    refine ⟨hne, fun c hc => List.mem_takeWhile_imp hc, List.takeWhile_append_dropWhile.symm, ?_⟩
    intro c hc
    have := List.head?_dropWhile_not Char.isDigit cs
    rw [hc] at this
    simpa using this

theorem digits_append {ds rest : List Char} (hne : ds ≠ []) (hds : ∀ c ∈ ds, c.isDigit = true)
    (hrest : ∀ c, rest.head? = some c → c.isDigit = false) :
    digits (ds ++ rest) = some (ds, rest) := by
  have htake : rest.takeWhile Char.isDigit = [] := by
    cases rest with
    | nil => rfl
    | cons c rest => simp [List.takeWhile, hrest c rfl]
  have hdrop : rest.dropWhile Char.isDigit = rest := by
    cases rest with
    | nil => rfl
    | cons c rest => simp [List.dropWhile, hrest c rfl]
  unfold digits
  rw [List.takeWhile_append_of_pos hds, List.dropWhile_append_of_pos hds, htake, hdrop,
    List.append_nil, if_neg hne]

theorem Local.digits : Local digits := by
  intro cs ds rest h
  obtain ⟨hne, hds, rfl, hrest⟩ := digits_some h
  refine ⟨rfl, fun rest' hrest' => digits_append hne hds fun c hc => ?_⟩
  obtain hhead | hends := hrest'
  · exact hrest c (hhead ▸ hc)
  · exact (hends c hc).1

/-- A scanner that reads one character and goes on with another scanner. -/
theorem Local.cons {p q : List Char → Option (List Char × List Char)} (hq : Local q) (c : Char)
    {cs a rest : List Char} (hp : ∀ cs, p (c :: cs) = (q cs).map fun r => (c :: r.1, r.2))
    (h : p (c :: cs) = some (a, rest)) :
    c :: cs = a ++ rest ∧
      ∀ rest', rest'.head? = rest.head? ∨ Ends rest' → p (a ++ rest') = some (a, rest') := by
  rw [hp] at h
  simp only [Option.map_eq_some_iff, Prod.exists] at h
  obtain ⟨b, r, hb, heq⟩ := h
  obtain ⟨rfl, rfl⟩ := Prod.mk.inj heq
  obtain ⟨rfl, hq'⟩ := hq cs b r hb
  refine ⟨rfl, fun rest' hrest => ?_⟩
  show p (c :: (b ++ rest')) = _
  rw [hp, hq' rest' hrest]
  rfl

theorem Local.integerPart : Local integerPart := by
  intro cs a rest h
  unfold Json.integerPart at h
  split at h
  · obtain ⟨rfl, rfl⟩ := Prod.mk.inj (Option.some.inj h)
    exact ⟨rfl, fun rest' _ => rfl⟩
  · next hzero =>
    obtain ⟨hcs, hlocal⟩ := Local.digits cs a rest h
    refine ⟨hcs, fun rest' hrest => ?_⟩
    rw [← hlocal rest' hrest]
    unfold Json.integerPart
    split
    · next hzero' =>
      have hne := (digits_some h).1
      cases a with
      | nil => exact absurd rfl hne
      | cons c a =>
        obtain ⟨rfl, -⟩ := List.cons.inj hzero'
        exact absurd hcs (hzero _)
    · rfl

theorem Local.fraction : Local fraction := by
  intro cs a rest h
  unfold Json.fraction at h
  split at h
  · exact Local.digits.cons '.' (p := Json.fraction) (fun _ => rfl) h
  · next hdot =>
    obtain ⟨rfl, rfl⟩ := Prod.mk.inj (Option.some.inj h)
    refine ⟨rfl, fun rest' hrest => ?_⟩
    show Json.fraction rest' = some ([], rest')
    unfold Json.fraction
    split
    · next rest' =>
      obtain hhead | hends := hrest
      · cases cs with
        | nil => cases hhead
        | cons c cs =>
          obtain rfl := Option.some.inj hhead
          exact absurd rfl (hdot cs)
      · exact absurd rfl (hends '.' rfl).2.1
    · rfl

/-- A number starts with a digit, after its sign. -/
theorem digits_head {cs ds rest : List Char} (h : digits cs = some (ds, rest)) :
    ∃ c ds', ds = c :: ds' ∧ c.isDigit = true := by
  obtain ⟨hne, hds, -⟩ := digits_some h
  cases ds with
  | nil => exact absurd rfl hne
  | cons c ds' => exact ⟨c, ds', rfl, hds c (List.mem_cons_self ..)⟩

theorem Local.exponentDigits : Local exponentDigits := by
  intro cs a rest h
  unfold Json.exponentDigits at h
  split at h
  · exact Local.digits.cons '+' (p := Json.exponentDigits) (fun _ => rfl) h
  · exact Local.digits.cons '-' (p := Json.exponentDigits) (fun _ => rfl) h
  · obtain ⟨hcs, hlocal⟩ := Local.digits cs a rest h
    refine ⟨hcs, fun rest' hrest => ?_⟩
    rw [← hlocal rest' hrest]
    obtain ⟨c, ds, rfl, hc⟩ := digits_head h
    unfold Json.exponentDigits
    split
    · next heq =>
      obtain ⟨rfl, -⟩ := List.cons.inj heq
      exact absurd hc (by decide)
    · next heq =>
      obtain ⟨rfl, -⟩ := List.cons.inj heq
      exact absurd hc (by decide)
    · rfl

theorem Local.exponent : Local exponent := by
  intro cs a rest h
  unfold Json.exponent at h
  split at h
  · exact Local.exponentDigits.cons 'e' (p := Json.exponent) (fun _ => rfl) h
  · exact Local.exponentDigits.cons 'E' (p := Json.exponent) (fun _ => rfl) h
  · next he hE =>
    obtain ⟨rfl, rfl⟩ := Prod.mk.inj (Option.some.inj h)
    refine ⟨rfl, fun rest' hrest => ?_⟩
    show Json.exponent rest' = some ([], rest')
    have hhead : ∀ c, c = 'e' ∨ c = 'E' → rest'.head? ≠ some c := by
      intro c hc hrest'
      obtain hhead | hends := hrest
      · rw [hrest'] at hhead
        cases cs with
        | nil => cases hhead
        | cons d cs =>
          obtain rfl := Option.some.inj hhead
          obtain rfl | rfl := hc
          · exact he cs rfl
          · exact hE cs rfl
      · obtain rfl | rfl := hc
        · exact (hends 'e' hrest').2.2.1 rfl
        · exact (hends 'E' hrest').2.2.2 rfl
    unfold Json.exponent
    split
    · exact absurd rfl (hhead 'e' (.inl rfl))
    · exact absurd rfl (hhead 'E' (.inr rfl))
    · rfl

theorem Local.unsignedNumber : Local unsignedNumber :=
  Local.integerPart.andThen (Local.fraction.andThen Local.exponent)

theorem unsignedNumber_head {cs a rest : List Char} (h : unsignedNumber cs = some (a, rest)) :
    ∃ c a', a = c :: a' ∧ c.isDigit = true := by
  simp only [Json.unsignedNumber, Json.andThen, Option.bind_eq_some_iff, Option.map_eq_some_iff,
    Prod.exists] at h
  obtain ⟨i, r, hi, b, r', -, heq⟩ := h
  obtain ⟨rfl, -⟩ := Prod.mk.inj heq
  unfold Json.integerPart at hi
  split at hi
  · obtain ⟨rfl, -⟩ := Prod.mk.inj (Option.some.inj hi)
    exact ⟨'0', b, rfl, rfl⟩
  · obtain ⟨c, ds, rfl, hc⟩ := digits_head hi
    exact ⟨c, ds ++ b, rfl, hc⟩

theorem Local.scanNumber : Local scanNumber := by
  intro cs a rest h
  unfold Json.scanNumber at h
  split at h
  · exact Local.unsignedNumber.cons '-' (p := Json.scanNumber) (fun _ => rfl) h
  · obtain ⟨hcs, hlocal⟩ := Local.unsignedNumber cs a rest h
    refine ⟨hcs, fun rest' hrest => ?_⟩
    rw [← hlocal rest' hrest]
    obtain ⟨c, a', rfl, hc⟩ := unsignedNumber_head h
    unfold Json.scanNumber
    split
    · next heq =>
      obtain ⟨rfl, -⟩ := List.cons.inj heq
      exact absurd hc (by decide)
    · rfl

/-- A number that was scanned is one. -/
theorem isNumber_of_scan {cs a rest : List Char} (h : scanNumber cs = some (a, rest)) :
    IsNumber (String.ofList a) := by
  have hlocal := (Local.scanNumber cs a rest h).2 [] (.inr fun c hc => by cases hc)
  rw [List.append_nil] at hlocal
  simpa [IsNumber] using hlocal

/-- A number starts with a digit or its sign. -/
theorem scanNumber_head {cs a rest : List Char} (h : scanNumber cs = some (a, rest)) :
    ∃ c a', a = c :: a' ∧ (c.isDigit = true ∨ c = '-') := by
  unfold Json.scanNumber at h
  split at h
  · simp only [Option.map_eq_some_iff, Prod.exists] at h
    obtain ⟨b, r, -, heq⟩ := h
    obtain ⟨rfl, -⟩ := Prod.mk.inj heq
    exact ⟨'-', b, rfl, .inr rfl⟩
  · obtain ⟨c, a', rfl, hc⟩ := unsignedNumber_head h
    exact ⟨c, a', rfl, .inl hc⟩

/-- What a scanner splits off has no control character. -/
def Printable (p : List Char → Option (List Char × List Char)) : Prop :=
  ∀ cs a rest, p cs = some (a, rest) → ∀ c ∈ a, 0x20 ≤ c.toNat

theorem Printable.andThen {p q : List Char → Option (List Char × List Char)} (hp : Printable p)
    (hq : Printable q) : Printable (andThen p q) := by
  intro cs a rest h c hc
  simp only [Json.andThen, Option.bind_eq_some_iff, Option.map_eq_some_iff, Prod.exists] at h
  obtain ⟨b, r, hb, b', r', hb', heq⟩ := h
  obtain ⟨rfl, rfl⟩ := Prod.mk.inj heq
  obtain hc | hc := List.mem_append.1 hc
  · exact hp cs b r hb c hc
  · exact hq r b' r' hb' c hc

/-- A scanner that reads one character and goes on with another scanner. -/
theorem Printable.cons {p : List Char → Option (List Char × List Char)} (hp : Printable p) {c : Char}
    (hc : 0x20 ≤ c.toNat) {cs a rest : List Char}
    (h : (p cs).map (fun r => (c :: r.1, r.2)) = some (a, rest)) : ∀ d ∈ a, 0x20 ≤ d.toNat := by
  obtain ⟨⟨b, r⟩, hb, heq⟩ := Option.map_eq_some_iff.1 h
  obtain ⟨rfl, rfl⟩ := Prod.mk.inj heq
  intro d hd
  obtain rfl | hd := List.mem_cons.1 hd
  · exact hc
  · exact hp cs b r hb d hd

theorem Printable.nothing {a r rest : List Char} (h : some (([] : List Char), r) = some (a, rest)) :
    ∀ d ∈ a, 0x20 ≤ d.toNat := by
  obtain ⟨rfl, rfl⟩ := Prod.mk.inj (Option.some.inj h)
  intro d hd
  cases hd

theorem Printable.digits : Printable digits := by
  intro cs ds rest h c hc
  have hdigit := (digits_some h).2.1 c hc
  simp only [Char.isDigit, Bool.and_eq_true, decide_eq_true_eq] at hdigit
  have hlow : ('0' : Char).val ≤ c.val := hdigit.1
  have hlow : ('0' : Char).toNat ≤ c.toNat := UInt32.le_iff_toNat_le.1 hlow
  exact Nat.le_trans (by decide) hlow

theorem Printable.integerPart : Printable integerPart := by
  intro cs a rest h
  unfold Json.integerPart at h
  split at h
  · obtain ⟨rfl, rfl⟩ := Prod.mk.inj (Option.some.inj h)
    intro d hd
    rw [List.mem_singleton.1 hd]
    decide
  · exact Printable.digits _ _ _ h

theorem Printable.fraction : Printable fraction := by
  intro cs a rest h
  unfold Json.fraction at h
  split at h
  · exact Printable.digits.cons (by decide) h
  · exact Printable.nothing h

theorem Printable.exponentDigits : Printable exponentDigits := by
  intro cs a rest h
  unfold Json.exponentDigits at h
  split at h
  · exact Printable.digits.cons (by decide) h
  · exact Printable.digits.cons (by decide) h
  · exact Printable.digits _ _ _ h

theorem Printable.exponent : Printable exponent := by
  intro cs a rest h
  unfold Json.exponent at h
  split at h
  · exact Printable.exponentDigits.cons (by decide) h
  · exact Printable.exponentDigits.cons (by decide) h
  · exact Printable.nothing h

theorem Printable.unsignedNumber : Printable unsignedNumber :=
  Printable.integerPart.andThen (Printable.fraction.andThen Printable.exponent)

/-- A number has no control character. -/
theorem IsNumber.printable {s : String} (h : IsNumber s) : ∀ c ∈ s.toList, 0x20 ≤ c.toNat := by
  unfold IsNumber Json.scanNumber at h
  split at h
  · next hs =>
    rw [hs] at h ⊢
    exact Printable.unsignedNumber.cons (by decide) h
  · exact Printable.unsignedNumber _ _ _ h

theorem Boundary.ends {cs : List Char} (h : Boundary cs) : Ends cs := by
  intro c hc
  cases cs with
  | nil => cases hc
  | cons d cs =>
    obtain rfl := Option.some.inj hc
    obtain rfl | rfl | rfl := h <;> decide

/-! ## Tokens, one at a time -/

section String

theorem hex4_append {cs rest : List Char} {n : Nat} (u : List Char)
    (h : hex4 cs = some (n, rest)) : hex4 (cs ++ u) = some (n, rest ++ u) := by
  unfold hex4 at h ⊢
  split at h
  · simp only [List.cons_append]
    simp only [Option.bind_eq_bind, Option.bind_eq_some_iff, Option.pure_def, Option.some.injEq,
      Prod.mk.injEq] at h ⊢
    obtain ⟨a, ha, b, hb, c, hc, d, hd, rfl, rfl⟩ := h
    exact ⟨a, ha, b, hb, c, hc, d, hd, rfl, rfl⟩
  · cases h

theorem lowSurrogate_append {high : Nat} {cs rest : List Char} {c : Char} (u : List Char)
    (h : lowSurrogate high cs = some (c, rest)) :
    lowSurrogate high (cs ++ u) = some (c, rest ++ u) := by
  unfold lowSurrogate at h ⊢
  split at h
  · simp only [List.cons_append]
    obtain ⟨⟨n, r⟩, hn, hr⟩ := Option.bind_eq_some_iff.1 h
    rw [hex4_append u hn]
    simp only [Option.bind_some]
    split at hr
    · next hlow =>
      obtain ⟨rfl, rfl⟩ := Prod.mk.inj (Option.some.inj hr)
      rw [if_pos hlow]
    · cases hr
  · cases h

theorem unicodeEscape_append {cs rest : List Char} {c : Char} (u : List Char)
    (h : unicodeEscape cs = some (c, rest)) : unicodeEscape (cs ++ u) = some (c, rest ++ u) := by
  unfold unicodeEscape at h ⊢
  obtain ⟨⟨n, r⟩, hn, hr⟩ := Option.bind_eq_some_iff.1 h
  rw [hex4_append u hn]
  simp only [Option.bind_some]
  simp only at hr
  split at hr
  · next hhigh =>
    rw [if_pos hhigh]
    exact lowSurrogate_append u hr
  · next hhigh =>
    rw [if_neg hhigh]
    split at hr
    · cases hr
    · next hlow =>
      obtain ⟨rfl, rfl⟩ := Prod.mk.inj (Option.some.inj hr)
      rw [if_neg hlow]

/-- A character is the same whatever follows it. -/
theorem character_append {cs rest : List Char} {c : Option Char} (u : List Char)
    (h : character cs = some (c, rest)) : character (cs ++ u) = some (c, rest ++ u) := by
  cases cs with
  | nil => cases h
  | cons d cs =>
    simp only [List.cons_append, character] at h ⊢
    split at h
    · next hquote =>
      obtain ⟨rfl, rfl⟩ := Prod.mk.inj (Option.some.inj h)
      rw [if_pos hquote]
    · next hquote =>
      rw [if_neg hquote]
      split at h
      · next hslash =>
        rw [if_pos hslash]
        cases cs with
        | nil => cases h
        | cons e cs =>
          simp only [List.cons_append] at h ⊢
          split at h
          · next hu =>
            rw [if_pos hu]
            obtain ⟨⟨a, r⟩, ha, heq⟩ := Option.map_eq_some_iff.1 h
            obtain ⟨rfl, rfl⟩ := Prod.mk.inj heq
            rw [unicodeEscape_append u ha]
            rfl
          · next hu =>
            rw [if_neg hu]
            obtain ⟨a, ha, heq⟩ := Option.map_eq_some_iff.1 h
            obtain ⟨rfl, rfl⟩ := Prod.mk.inj heq
            rw [ha]
            rfl
      · next hslash =>
        rw [if_neg hslash]
        split at h
        · cases h
        · next hcontrol =>
          obtain ⟨rfl, rfl⟩ := Prod.mk.inj (Option.some.inj h)
          rw [if_neg hcontrol]

theorem hex4_length {cs rest : List Char} {n : Nat} (h : hex4 cs = some (n, rest)) :
    rest.length < cs.length := by
  unfold hex4 at h
  split at h
  · simp only [Option.bind_eq_bind, Option.bind_eq_some_iff, Option.pure_def, Option.some.injEq,
      Prod.mk.injEq] at h
    obtain ⟨-, -, -, -, -, -, -, -, -, rfl⟩ := h
    simp only [List.length_cons]
    omega
  · cases h

theorem unicodeEscape_length {cs rest : List Char} {c : Char}
    (h : unicodeEscape cs = some (c, rest)) : rest.length < cs.length := by
  unfold unicodeEscape at h
  obtain ⟨⟨n, r⟩, hn, hr⟩ := Option.bind_eq_some_iff.1 h
  have hlen := hex4_length hn
  simp only at hr
  split at hr
  · unfold lowSurrogate at hr
    split at hr
    · obtain ⟨⟨m, r'⟩, hm, hr'⟩ := Option.bind_eq_some_iff.1 hr
      have hlen' := hex4_length hm
      simp only at hr'
      split at hr'
      · obtain ⟨-, rfl⟩ := Prod.mk.inj (Option.some.inj hr')
        simp only [List.length_cons] at hlen
        omega
      · cases hr'
    · cases hr
  · split at hr
    · cases hr
    · obtain ⟨-, rfl⟩ := Prod.mk.inj (Option.some.inj hr)
      exact hlen

theorem character_length {cs rest : List Char} {c : Option Char}
    (h : character cs = some (c, rest)) : rest.length < cs.length := by
  cases cs with
  | nil => cases h
  | cons d cs =>
    simp only [character] at h
    split at h
    · obtain ⟨-, rfl⟩ := Prod.mk.inj (Option.some.inj h)
      exact Nat.lt_succ_self _
    · split at h
      · cases cs with
        | nil => cases h
        | cons e cs =>
          simp only at h
          split at h
          · obtain ⟨⟨a, r⟩, ha, heq⟩ := Option.map_eq_some_iff.1 h
            obtain ⟨-, rfl⟩ := Prod.mk.inj heq
            have hlen := unicodeEscape_length ha
            simp only [List.length_cons]
            omega
          · obtain ⟨a, ha, heq⟩ := Option.map_eq_some_iff.1 h
            obtain ⟨-, rfl⟩ := Prod.mk.inj heq
            simp only [List.length_cons]
            omega
      · split at h
        · cases h
        · obtain ⟨-, rfl⟩ := Prod.mk.inj (Option.some.inj h)
          exact Nat.lt_succ_self _

end String

/-- A string, after its opening quote, up to its closing one. -/
def scanString (cs : List Char) : Option (List Char × List Char) :=
  match _h : character cs with
  | none => none
  | some (none, rest) => some ([], rest)
  | some (some c, rest) => (scanString rest).map fun r => (c :: r.1, r.2)
termination_by cs.length
decreasing_by exact character_length _h

theorem scanString_end {cs rest : List Char} (h : character cs = some (none, rest)) :
    scanString cs = some ([], rest) := by
  rw [scanString]
  split <;> simp_all

theorem scanString_cons {cs rest : List Char} {c : Char} (h : character cs = some (some c, rest)) :
    scanString cs = (scanString rest).map fun r => (c :: r.1, r.2) := by
  rw [scanString]
  split <;> simp_all

theorem scanString_append {cs a rest : List Char} (u : List Char)
    (h : scanString cs = some (a, rest)) : scanString (cs ++ u) = some (a, rest ++ u) := by
  induction cs using scanString.induct generalizing a with
  | case1 cs hc =>
    rw [scanString] at h
    split at h <;> simp_all
  | case2 cs r hc =>
    rw [scanString_end hc] at h
    obtain ⟨rfl, rfl⟩ := Prod.mk.inj (Option.some.inj h)
    exact scanString_end (character_append u hc)
  | case3 cs c r hc ih =>
    rw [scanString_cons hc] at h
    obtain ⟨⟨b, r'⟩, hb, heq⟩ := Option.map_eq_some_iff.1 h
    obtain ⟨rfl, rfl⟩ := Prod.mk.inj heq
    rw [scanString_cons (character_append u hc), ih hb]
    rfl

theorem scanString_length {cs a rest : List Char} (h : scanString cs = some (a, rest)) :
    rest.length < cs.length := by
  induction cs using scanString.induct generalizing a with
  | case1 cs hc =>
    rw [scanString] at h
    split at h <;> simp_all
  | case2 cs r hc =>
    rw [scanString_end hc] at h
    obtain ⟨-, rfl⟩ := Prod.mk.inj (Option.some.inj h)
    exact character_length hc
  | case3 cs c r hc ih =>
    rw [scanString_cons hc] at h
    obtain ⟨⟨b, r'⟩, hb, heq⟩ := Option.map_eq_some_iff.1 h
    obtain ⟨-, rfl⟩ := Prod.mk.inj heq
    exact Nat.lt_trans (ih hb) (character_length hc)

/-! ## Lexemes -/

/-- A token or a blank (`none`) from the head of a text. -/
def lexeme (d : Dialect) : List Char → Option (Option Token × List Char)
  | [] => none
  | c :: cs =>
    if isBlank c then some (none, cs)
    else match punctuation c with
      | some t => some (some t, cs)
      | none =>
        if c = '"' then (scanString cs).map fun r => (some (.string (String.ofList r.1)), r.2)
        else if c = '/' then
          match d with
          | .strict => none
          | .lenient _ => (comment cs).map fun rest => (none, rest)
        else if c.isDigit ∨ c = '-' then
          (scanNumber (c :: cs)).bind fun r =>
            match d with
            | .strict => some (some (.number (String.ofList r.1)), r.2)
            | .lenient inRange =>
              if inRange (String.ofList r.1) then some (some (.number (String.ofList r.1)), r.2)
              else none
        else (word (c :: cs)).map fun r => (some r.1, r.2)

theorem afterWord_some {w cs rest : List Char} (h : afterWord w cs = some rest) :
    cs = w ++ rest := by
  induction w generalizing cs with
  | nil => exact Option.some.inj h
  | cons a w ih =>
    cases cs with
    | nil => cases h
    | cons c cs =>
      simp only [afterWord] at h
      split at h
      · next hac => rw [hac, ih h, List.cons_append]
      · cases h

theorem word_some {cs rest : List Char} {t : Token} (h : word cs = some (t, rest)) :
    (t = .bool true ∧ cs = "true".toList ++ rest) ∨ (t = .bool false ∧ cs = "false".toList ++ rest) ∨
      (t = .null ∧ cs = "null".toList ++ rest) := by
  simp only [word, Option.or_eq_some_iff, Option.map_eq_some_iff, Prod.mk.injEq] at h
  obtain ⟨r, hr, rfl, rfl⟩ | ⟨-, ⟨r, hr, rfl, rfl⟩ | ⟨-, r, hr, rfl, rfl⟩⟩ := h
  · exact .inl ⟨rfl, afterWord_some hr⟩
  · exact .inr (.inl ⟨rfl, afterWord_some hr⟩)
  · exact .inr (.inr ⟨rfl, afterWord_some hr⟩)

theorem word_append {cs rest : List Char} {t : Token} (u : List Char)
    (h : word cs = some (t, rest)) : word (cs ++ u) = some (t, rest ++ u) := by
  obtain ⟨rfl, rfl⟩ | ⟨rfl, rfl⟩ | ⟨rfl, rfl⟩ := word_some h <;> rfl

theorem blockComment_length {cs rest : List Char} (h : blockComment cs = some rest) :
    rest.length < cs.length := by
  induction cs using blockComment.induct with
  | case1 cs =>
    obtain rfl := Option.some.inj h
    simp only [List.length_cons]
    omega
  | case2 cs => cases h
  | case3 c cs h₁ h₂ ih =>
    rw [blockComment.eq_3 c cs h₁ h₂] at h
    exact Nat.lt_succ_of_lt (ih h)
  | case4 => cases h

theorem comment_length {cs rest : List Char} (h : comment cs = some rest) :
    rest.length < cs.length := by
  unfold comment at h
  split at h
  · next cs =>
    obtain rfl := Option.some.inj h
    have hle : (cs.dropWhile fun c => c ≠ '\n' && c ≠ '\r' && c ≠ '\x00').length ≤ cs.length :=
      (List.dropWhile_suffix _).length_le
    simp only [List.length_drop, List.length_cons]
    omega
  · exact Nat.lt_succ_of_lt (blockComment_length h)
  · cases h

theorem scanNumber_length {cs a rest : List Char} (h : scanNumber cs = some (a, rest)) :
    rest.length < cs.length := by
  obtain ⟨rfl, -⟩ := Local.scanNumber cs a rest h
  obtain ⟨c, a', rfl, -⟩ := scanNumber_head h
  simp only [List.cons_append, List.length_cons, List.length_append]
  omega

theorem word_length {cs rest : List Char} {t : Token} (h : word cs = some (t, rest)) :
    rest.length < cs.length := by
  obtain ⟨-, rfl⟩ | ⟨-, rfl⟩ | ⟨-, rfl⟩ := word_some h <;>
    simp only [List.length_append] <;> exact Nat.lt_add_of_pos_left (by decide)

/-- **What a lexeme is**, by its first character. -/
theorem lexeme_cases {d : Dialect} {c : Char} {cs rest : List Char} {t : Option Token}
    (h : lexeme d (c :: cs) = some (t, rest)) :
    (isBlank c = true ∧ t = none ∧ rest = cs) ∨
    (isBlank c = false ∧ ∃ p, punctuation c = some p ∧ t = some p ∧ rest = cs) ∨
    (c = '"' ∧ ∃ s, scanString cs = some (s, rest) ∧ t = some (.string (String.ofList s))) ∨
    (c = '/' ∧ t = none ∧ comment cs = some rest ∧ ∃ inRange, d = .lenient inRange) ∨
    ((c.isDigit = true ∨ c = '-') ∧ ∃ s, scanNumber (c :: cs) = some (s, rest) ∧
      t = some (.number (String.ofList s))) ∨
    (isBlank c = false ∧ punctuation c = none ∧ c ≠ '"' ∧ c ≠ '/' ∧ ¬ (c.isDigit = true ∨ c = '-') ∧
      ∃ w, word (c :: cs) = some (w, rest) ∧ t = some w) := by
  simp only [lexeme] at h
  split at h
  · next hblank =>
    obtain ⟨rfl, rfl⟩ := Prod.mk.inj (Option.some.inj h)
    exact .inl ⟨hblank, rfl, rfl⟩
  · next hblank =>
    have hblank : isBlank c = false := by simpa using hblank
    split at h
    · next p hp =>
      obtain ⟨rfl, rfl⟩ := Prod.mk.inj (Option.some.inj h)
      exact .inr (.inl ⟨hblank, p, hp, rfl, rfl⟩)
    · next hp =>
      split at h
      · next hquote =>
        obtain ⟨⟨s, r⟩, hs, heq⟩ := Option.map_eq_some_iff.1 h
        obtain ⟨rfl, rfl⟩ := Prod.mk.inj heq
        exact .inr (.inr (.inl ⟨hquote, s, hs, rfl⟩))
      · next hquote =>
        split at h
        · next hslash =>
          cases d with
          | strict => cases h
          | lenient inRange =>
            obtain ⟨r, hr, heq⟩ := Option.map_eq_some_iff.1 h
            obtain ⟨rfl, rfl⟩ := Prod.mk.inj heq
            exact .inr (.inr (.inr (.inl ⟨hslash, rfl, hr, inRange, rfl⟩)))
        · next hslash =>
          split at h
          · next hdigit =>
            obtain ⟨⟨s, r⟩, hs, hr⟩ := Option.bind_eq_some_iff.1 h
            refine .inr (.inr (.inr (.inr (.inl ⟨hdigit, s, ?_⟩))))
            cases d with
            | strict =>
              obtain ⟨rfl, rfl⟩ := Prod.mk.inj (Option.some.inj hr)
              exact ⟨hs, rfl⟩
            | lenient inRange =>
              simp only at hr
              split at hr
              · obtain ⟨rfl, rfl⟩ := Prod.mk.inj (Option.some.inj hr)
                exact ⟨hs, rfl⟩
              · cases hr
          · next hdigit =>
            obtain ⟨⟨w, r⟩, hw, heq⟩ := Option.map_eq_some_iff.1 h
            obtain ⟨rfl, rfl⟩ := Prod.mk.inj heq
            exact .inr (.inr (.inr (.inr (.inr ⟨hblank, hp, hquote, hslash, hdigit, w, hw, rfl⟩))))

theorem lexeme_length {d : Dialect} {cs rest : List Char} {t : Option Token}
    (h : lexeme d cs = some (t, rest)) : rest.length < cs.length := by
  cases cs with
  | nil => cases h
  | cons c cs =>
    obtain ⟨-, -, rfl⟩ | ⟨-, -, -, -, rfl⟩ | ⟨-, s, hs, -⟩ | ⟨-, -, hc, -⟩ | ⟨-, s, hs, -⟩ |
      ⟨-, -, -, -, -, w, hw, -⟩ := lexeme_cases h
    · exact Nat.lt_succ_self _
    · exact Nat.lt_succ_self _
    · exact Nat.lt_succ_of_lt (scanString_length hs)
    · exact Nat.lt_succ_of_lt (comment_length hc)
    · exact scanNumber_length hs
    · exact word_length hw

/-! ### The strict dialect -/

theorem lexeme_blank {d : Dialect} {c : Char} (cs : List Char) (h : isBlank c = true) :
    lexeme d (c :: cs) = some (none, cs) := by
  simp only [lexeme, h, if_true]

theorem lexeme_punctuation {d : Dialect} {c : Char} {p : Token} (cs : List Char)
    (hblank : isBlank c = false) (h : punctuation c = some p) :
    lexeme d (c :: cs) = some (some p, cs) := by
  simp only [lexeme, hblank, h, Bool.false_eq_true, if_false]

theorem lexeme_quote (d : Dialect) (cs : List Char) :
    lexeme d ('"' :: cs) =
      (scanString cs).map fun r => (some (.string (String.ofList r.1)), r.2) := by
  rfl

/-- What begins a number begins nothing else. -/
theorem number_head {c : Char} (h : c.isDigit = true ∨ c = '-') :
    isBlank c = false ∧ punctuation c = none ∧ c ≠ '"' ∧ c ≠ '/' := by
  have hne : ∀ d : Char, d.isDigit = false → d ≠ '-' → c ≠ d := by
    rintro d hd hminus rfl
    obtain h | h := h
    · rw [hd] at h
      cases h
    · exact hminus h
  refine ⟨?_, ?_, hne '"' (by decide) (by decide), hne '/' (by decide) (by decide)⟩
  · simp [isBlank, hne ' ' (by decide) (by decide), hne '\t' (by decide) (by decide),
      hne '\n' (by decide) (by decide), hne '\r' (by decide) (by decide)]
  · unfold punctuation
    rw [List.lookup_eq_none_iff]
    have hmarks : ∀ p ∈ [('{', Token.beginObject), ('}', .endObject), ('[', .beginArray),
        (']', .endArray), (':', .colon), (',', .comma)], p.1.isDigit = false ∧ p.1 ≠ '-' := by
      decide
    intro p hp
    simpa using hne p.1 (hmarks p hp).1 (hmarks p hp).2

theorem lexeme_number {c : Char} {cs s rest : List Char} (hc : c.isDigit = true ∨ c = '-')
    (h : scanNumber (c :: cs) = some (s, rest)) :
    lexeme .strict (c :: cs) = some (some (.number (String.ofList s)), rest) := by
  obtain ⟨hblank, hpunctuation, hquote, hslash⟩ := number_head hc
  simp only [lexeme, hblank, hpunctuation, hquote, hslash, hc, h, if_true, if_false,
    Bool.false_eq_true, Option.bind_some]

theorem lexeme_number_lenient {inRange : String → Bool} {c : Char} {cs s rest : List Char}
    (hc : c.isDigit = true ∨ c = '-') (h : scanNumber (c :: cs) = some (s, rest))
    (hs : inRange (String.ofList s) = true) :
    lexeme (.lenient inRange) (c :: cs) = some (some (.number (String.ofList s)), rest) := by
  obtain ⟨hblank, hpunctuation, hquote, hslash⟩ := number_head hc
  simp only [lexeme, hblank, hpunctuation, hquote, hslash, hc, h, hs, if_true, if_false,
    Bool.false_eq_true, Option.bind_some]

theorem lexeme_word {d : Dialect} {c : Char} {cs rest : List Char} {w : Token}
    (hblank : isBlank c = false) (hpunctuation : punctuation c = none) (hquote : c ≠ '"')
    (hslash : c ≠ '/') (hdigit : ¬ (c.isDigit = true ∨ c = '-'))
    (h : word (c :: cs) = some (w, rest)) : lexeme d (c :: cs) = some (some w, rest) := by
  simp only [lexeme, hblank, hpunctuation, hquote, hslash, hdigit, h, if_false, Bool.false_eq_true,
    Option.map_some]

/-- **A lexeme is the same whatever follows it**, if what follows is a boundary. Only a number
looks at it at all. -/
theorem lexeme_append {cs rest u : List Char} {t : Option Token} (hu : Boundary u)
    (h : lexeme .strict cs = some (t, rest)) :
    lexeme .strict (cs ++ u) = some (t, rest ++ u) := by
  cases cs with
  | nil => cases h
  | cons c cs =>
    obtain ⟨hblank, rfl, rfl⟩ | ⟨hblank, p, hp, rfl, rfl⟩ | ⟨rfl, s, hs, rfl⟩ | ⟨-, -, -, _, hd⟩ |
      ⟨hdigit, s, hs, rfl⟩ | ⟨hblank, hp, hquote, hslash, hdigit, w, hw, rfl⟩ := lexeme_cases h
    · exact lexeme_blank _ hblank
    · exact lexeme_punctuation _ hblank hp
    · show lexeme .strict ('"' :: (cs ++ u)) = _
      rw [lexeme_quote, scanString_append u hs]
      rfl
    · cases hd
    · obtain ⟨hcs, hlocal⟩ := Local.scanNumber _ s rest hs
      refine lexeme_number hdigit ?_
      show scanNumber ((c :: cs) ++ u) = _
      rw [hcs, List.append_assoc]
      refine hlocal (rest ++ u) ?_
      cases rest with
      | nil => exact .inr hu.ends
      | cons d rest => exact .inl rfl
    · exact lexeme_word hblank hp hquote hslash hdigit (word_append u hw)

/-- Away from comments, what the lenient dialect reads the strict one reads. -/
theorem lexeme_strict {inRange : String → Bool} {c : Char} {cs rest : List Char}
    {t : Option Token} (hc : c ≠ '/') (h : lexeme (.lenient inRange) (c :: cs) = some (t, rest)) :
    lexeme .strict (c :: cs) = some (t, rest) := by
  obtain ⟨hblank, rfl, rfl⟩ | ⟨hblank, p, hp, rfl, rfl⟩ | ⟨rfl, s, hs, rfl⟩ | ⟨hslash, -⟩ |
    ⟨hdigit, s, hs, rfl⟩ | ⟨hblank, hp, hquote, hslash, hdigit, w, hw, rfl⟩ := lexeme_cases h
  · exact lexeme_blank _ hblank
  · exact lexeme_punctuation _ hblank hp
  · rw [lexeme_quote, hs]
    rfl
  · exact absurd hslash hc
  · exact lexeme_number hdigit hs
  · exact lexeme_word hblank hp hquote hslash hdigit hw

/-- What the strict dialect reads the lenient one reads, but for numbers it cannot hold. -/
theorem lexeme_lenient {inRange : String → Bool} {cs rest : List Char} {t : Option Token}
    (h : lexeme .strict cs = some (t, rest)) (ht : ∀ s, t = some (.number s) → inRange s = true) :
    lexeme (.lenient inRange) cs = some (t, rest) := by
  cases cs with
  | nil => cases h
  | cons c cs =>
    obtain ⟨hblank, rfl, rfl⟩ | ⟨hblank, p, hp, rfl, rfl⟩ | ⟨rfl, s, hs, rfl⟩ | ⟨-, -, -, _, hd⟩ |
      ⟨hdigit, s, hs, rfl⟩ | ⟨hblank, hp, hquote, hslash, hdigit, w, hw, rfl⟩ := lexeme_cases h
    · exact lexeme_blank _ hblank
    · exact lexeme_punctuation _ hblank hp
    · rw [lexeme_quote, hs]
      rfl
    · cases hd
    · exact lexeme_number_lenient hdigit hs (ht _ rfl)
    · exact lexeme_word hblank hp hquote hslash hdigit hw

/-! ## The tokens of a text -/

/-- The lenient dialect ends at a NUL. -/
def Dialect.endsAt : Dialect → Char → Bool
  | .strict, _ => false
  | .lenient _, c => c = '\x00'

def lex (d : Dialect) : List Char → Option (List Token)
  | [] => some []
  | c :: cs =>
    if d.endsAt c then some []
    else match _h : lexeme d (c :: cs) with
      | none => none
      | some (t, rest) => (lex d rest).map (t.toList ++ ·)
termination_by cs => cs.length
decreasing_by exact lexeme_length _h

theorem lex_none {cs : List Char} (hcs : cs ≠ []) (h : lexeme .strict cs = none) :
    lex .strict cs = none := by
  cases cs with
  | nil => exact absurd rfl hcs
  | cons c cs =>
    rw [lex, if_neg (by simp [Dialect.endsAt])]
    split <;> simp_all

/-- The first lexeme, and the tokens of the rest. -/
theorem lex_cons {d : Dialect} {c : Char} {cs rest : List Char} {t : Option Token}
    (hend : d.endsAt c = false) (h : lexeme d (c :: cs) = some (t, rest)) :
    lex d (c :: cs) = (lex d rest).map (t.toList ++ ·) := by
  rw [lex, if_neg (by simp [hend])]
  split <;> simp_all

theorem lex_lexeme {cs rest : List Char} {t : Option Token}
    (h : lexeme .strict cs = some (t, rest)) :
    lex .strict cs = (lex .strict rest).map (t.toList ++ ·) := by
  cases cs with
  | nil => cases h
  | cons c cs => exact lex_cons rfl h

/-- **What the strict dialect reads the lenient one reads**, if it can hold the numbers. -/
theorem lex_lenient {inRange : String → Bool} {cs : List Char} {ts : List Token}
    (h : lex .strict cs = some ts) (hts : ∀ s, .number s ∈ ts → inRange s = true) :
    lex (.lenient inRange) cs = some ts := by
  induction cs using lex.induct (d := .strict) generalizing ts with
  | case1 =>
    rw [lex] at h ⊢
    exact h
  | case2 c cs hend => cases hend
  | case3 c cs hend hnone =>
    rw [lex_none (by simp) hnone] at h
    cases h
  | case4 c cs hend t rest hsome ih =>
    rw [lex_lexeme hsome] at h
    obtain ⟨ts', hts', rfl⟩ := Option.map_eq_some_iff.1 h
    have hnul : (Dialect.lenient inRange).endsAt c = false := by
      cases hc : (Dialect.lenient inRange).endsAt c with
      | false => rfl
      | true =>
        have hnul : c = '\x00' := by simpa [Dialect.endsAt] using hc
        subst hnul
        cases hsome
    have hlexeme : lexeme (.lenient inRange) (c :: cs) = some (t, rest) :=
      lexeme_lenient hsome fun s hs => hts s (by simp [hs])
    rw [lex_cons hnul hlexeme, ih hts' fun s hs => hts s (List.mem_append_right _ hs)]
    rfl

/-- **No comment can hide in front of a brace.** What the lenient dialect reads, and the strict
one reads with a brace after it, has the same tokens in both. -/
theorem lex_strict_of_lenient {inRange : String → Bool} {cs : List Char} {ts : List Token}
    (h : lex (.lenient inRange) cs = some ts) (hbrace : lex .strict (cs ++ ['}']) ≠ none) :
    lex .strict cs = some ts := by
  induction cs using lex.induct (d := .lenient inRange) generalizing ts with
  | case1 =>
    rw [lex] at h ⊢
    exact h
  | case2 c cs hend =>
    -- a NUL is no token of the strict dialect
    have hnul : c = '\x00' := by simpa [Dialect.endsAt] using hend
    subst hnul
    exact absurd (lex_none (by simp) rfl) hbrace
  | case3 c cs hend hnone =>
    rw [lex, if_neg hend] at h
    split at h <;> simp_all
  | case4 c cs hend t rest hsome ih =>
    rw [lex, if_neg hend] at h
    have hts : ∃ ts', lex (.lenient inRange) rest = some ts' ∧ ts = t.toList ++ ts' := by
      split at h
      · simp_all
      · next t' rest' hsome' =>
        rw [hsome] at hsome'
        obtain ⟨rfl, rfl⟩ := Prod.mk.inj (Option.some.inj hsome')
        obtain ⟨ts', hts', rfl⟩ := Option.map_eq_some_iff.1 h
        exact ⟨ts', hts', rfl⟩
    obtain ⟨ts', hts', rfl⟩ := hts
    have hslash : c ≠ '/' := by
      rintro rfl
      exact hbrace (lex_none (by simp) rfl)
    have hstrict := lexeme_strict hslash hsome
    rw [lex_lexeme (lexeme_append (u := ['}']) (.inr (.inr rfl)) hstrict)] at hbrace
    have hrest : lex .strict (rest ++ ['}']) ≠ none := fun hn => hbrace (by rw [hn]; rfl)
    rw [lex_lexeme hstrict, ih hts' hrest]
    rfl

end Jovian.Json
