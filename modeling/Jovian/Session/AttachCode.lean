import Mathlib.Data.List.Basic

/-!
# RHelper — the code that attaches packages (`attachCode` in `r-helper.ts`)

The names are put into the code as R string literals. Here is what `attachCode` writes, and how R's parser
reads the literals.

* **`attachedBy_attachCode`** — R reads just the names that were put in, whatever characters are in them.
-/

namespace Jovian.RHelper

/-! ## What is written -/

abbrev Text := List Char

/-- An R string literal. -/
def rString (value : Text) : Text :=
  let slashes := value.flatMap fun c => if c = '\\' then ['\\', '\\'] else [c]
  let quotes := slashes.flatMap fun c => if c = '"' then ['\\', '"'] else [c]
  '"' :: (quotes ++ ['"'])

def attachHead : Text := "for (.jovian_p in c(".toList

def attachTail : Text :=
  (")) try(suppressPackageStartupMessages(library(.jovian_p, character.only = TRUE)), silent = TRUE); " ++
    "rm(.jovian_p)").toList

def attachCode (packages : List Text) : Text :=
  attachHead ++ ([',', ' '].intercalate (packages.map rString) ++ attachTail)

/-! ## R's reading of it -/

/-- R's escapes of one character. -/
def escape (c : Char) : Option Char :=
  if c = 'n' then some '\n'
  else if c = 't' then some '\t'
  else if c = 'r' then some '\r'
  else if c = 'a' then some '\x07'
  else if c = 'b' then some '\x08'
  else if c = 'f' then some '\x0c'
  else if c = 'v' then some '\x0b'
  else if c ∈ ['\\', '"', '\'', ' ', '\n'] then some c
  else none

/-- A string literal behind its opening quote, and what follows it. Numeric escapes are not read here. -/
def readString : Text → Option (Text × Text)
  | [] => none
  | '"' :: rest => some ([], rest)
  | '\\' :: c :: rest => (escape c).bind fun d => (readString rest).map fun r => (d :: r.1, r.2)
  | c :: rest => (readString rest).map fun r => (c :: r.1, r.2)

/-- The arguments of a call, all string literals, and what follows them. -/
def readArguments : Nat → Text → Option (List Text × Text)
  | 0, _ => none
  | n + 1, '"' :: rest =>
    match readString rest with
    | some (value, ',' :: ' ' :: more) => (readArguments n more).map fun r => (value :: r.1, r.2)
    | some (value, rest) => some ([value], rest)
    | none => none
  | _ + 1, rest => some ([], rest)

/-- The packages that a piece of code runs `library()` for, where it is one of those above. -/
def attachedBy (code : Text) : List Text :=
  match readArguments code.length (code.drop attachHead.length) with
  | some (packages, rest) => if code.take attachHead.length = attachHead ∧ rest = attachTail then packages else []
  | none => []

/-! ## The code is read as it was meant -/

/-- Both replacements at once. -/
def escaped (c : Char) : Text :=
  if c = '\\' then ['\\', '\\'] else if c = '"' then ['\\', '"'] else [c]

theorem rString_eq (value : Text) : rString value = '"' :: (value.flatMap escaped ++ ['"']) := by
  have heach : ∀ c : Char, ((if c = '\\' then ['\\', '\\'] else [c]).flatMap fun c =>
      if c = '"' then ['\\', '"'] else [c]) = escaped c := by
    intro c
    unfold escaped
    by_cases hslash : c = '\\'
    · rw [if_pos hslash, if_pos hslash]
      rfl
    · rw [if_neg hslash, if_neg hslash, List.flatMap_singleton]
  simp only [rString, List.flatMap_assoc, heach]

theorem readString_escaped_append (c : Char) (rest : Text) :
    readString (escaped c ++ rest) = (readString rest).map fun r => (c :: r.1, r.2) := by
  unfold escaped
  by_cases hslash : c = '\\'
  · subst hslash
    rfl
  · by_cases hquote : c = '"'
    · subst hquote
      rfl
    · rw [if_neg hslash, if_neg hquote, List.singleton_append, readString]
      · exact hquote
      · exact fun d u h => absurd h hslash

theorem readString_escaped (value rest : Text) :
    readString (value.flatMap escaped ++ '"' :: rest) = some (value, rest) := by
  induction value with
  | nil => rfl
  | cons c value ih =>
    rw [List.flatMap_cons, List.append_assoc, readString_escaped_append, ih]
    rfl

theorem readArguments_more (n : Nat) (p more : Text) :
    readArguments (n + 1) (rString p ++ ',' :: ' ' :: more) =
      (readArguments n more).map fun r => (p :: r.1, r.2) := by
  rw [rString_eq, List.cons_append, List.append_assoc, List.singleton_append, readArguments, readString_escaped]
  rfl

theorem readArguments_last (n : Nat) (p rest : Text) :
    readArguments (n + 1) (rString p ++ ')' :: rest) = some ([p], ')' :: rest) := by
  rw [rString_eq, List.cons_append, List.append_assoc, List.singleton_append, readArguments, readString_escaped]
  rfl

/-- The literals are read one by one, up to the parenthesis. -/
theorem readArguments_append {packages : List Text} {n : Nat} (hn : packages.length < n) (rest : Text) :
    readArguments n ([',', ' '].intercalate (packages.map rString) ++ ')' :: rest) =
      some (packages, ')' :: rest) := by
  induction packages generalizing n with
  | nil =>
    obtain ⟨n, rfl⟩ := Nat.exists_eq_succ_of_ne_zero (show n ≠ 0 by omega)
    rfl
  | cons p packages ih =>
    rw [List.length_cons] at hn
    obtain ⟨n, rfl⟩ := Nat.exists_eq_succ_of_ne_zero (show n ≠ 0 by omega)
    cases packages with
    | nil =>
      rw [List.map_singleton, List.intercalate_singleton]
      exact readArguments_last n p rest
    | cons q packages =>
      have hne : (q :: packages).map rString ≠ [] := List.cons_ne_nil _ _
      show readArguments (n + 1) ([',', ' '].intercalate (rString p :: (q :: packages).map rString) ++ _) = _
      rw [List.intercalate_cons_of_ne_nil hne, List.append_assoc, List.append_assoc]
      show readArguments (n + 1) (rString p ++ ',' :: ' ' :: (_ ++ ')' :: rest)) = _
      rw [readArguments_more, ih (by omega)]
      rfl

theorem length_le_intercalate (packages : List Text) :
    packages.length ≤ ([',', ' '].intercalate (packages.map rString)).length := by
  induction packages with
  | nil => exact Nat.le_refl _
  | cons p packages ih =>
    have hp : 1 ≤ (rString p).length := by
      rw [rString_eq, List.length_cons]
      omega
    by_cases hne : packages.map rString = []
    · rw [List.map_eq_nil_iff.mp hne, List.map_singleton, List.intercalate_singleton]
      exact hp
    · rw [List.map_cons, List.intercalate_cons_of_ne_nil hne]
      simp only [List.length_append, List.length_cons]
      omega

/-- **The code names just the packages**, whatever their names are. -/
theorem attachedBy_attachCode (packages : List Text) : attachedBy (attachCode packages) = packages := by
  have hlong : packages.length < (attachCode packages).length := by
    have hlength := length_le_intercalate packages
    have hhead : attachHead.length = 20 := by decide
    rw [attachCode, List.length_append, List.length_append, hhead]
    omega
  have hread := readArguments_append hlong (attachTail.drop 1)
  have htail : ')' :: attachTail.drop 1 = attachTail := by decide
  rw [htail] at hread
  unfold attachedBy
  rw [show (attachCode packages).drop attachHead.length = _ from List.drop_left, hread]
  exact if_pos ⟨List.take_left, rfl⟩

end Jovian.RHelper
