import Mathlib.Algebra.GroupWithZero.Nat
import Mathlib.Data.List.Basic

/-!
# Argv — a Windows command line, taken apart

The rules of `CommandLineToArgvW`. The program comes first: up to the next quote, where it is
quoted, and no character of it is special. Spaces and tabs end an argument, unless they are quoted.
Before a quote, backslashes are special: half of them are left, and the quote is a character of the
argument where their number is odd; else it begins or ends a quoted part.

* **`weight_arguments`** — a backslash weighs two and a quote one: the arguments weigh what the
  line's runs of backslashes and quotes weigh (`runs`), whatever is quoted.
* `arguments_other`, `arguments_backslash`, `arguments_quote` — what a character does.
-/

namespace Argv

abbrev Text := List Char

def isBlank (c : Char) : Bool := c = ' ' ∨ c = '\t'

/-! ## Parsing -/

/-- The arguments of the rest of a line: `current` is the argument that has begun, `quoted` whether
it is inside quotes, and `n` the backslashes just read. -/
def arguments (current : Option Text) (quoted : Bool) (n : Nat) : Text → List Text
  | [] => (current.map (· ++ List.replicate n '\\')).toList
  | c :: rest =>
    if c = '\\' then arguments (some (current.getD [])) quoted (n + 1) rest
    else if c = '"' then
      let kept := current.getD [] ++ List.replicate (n / 2) '\\'
      if n % 2 = 1 then arguments (some (kept ++ ['"'])) quoted 0 rest
      else arguments (some kept) (!quoted) 0 rest
    else if isBlank c ∧ quoted = false then
      (current.map (· ++ List.replicate n '\\')).toList ++ arguments none false 0 rest
    else arguments (some (current.getD [] ++ List.replicate n '\\' ++ [c])) quoted 0 rest

/-- The program and its arguments. -/
def parse : Text → List Text
  | '"' :: rest =>
    rest.takeWhile (· ≠ '"') :: arguments none false 0 (rest.dropWhile (· ≠ '"')).tail
  | line =>
    line.takeWhile (fun c => !isBlank c) ::
      arguments none false 0 (line.dropWhile fun c => !isBlank c)

attribute [grind =] arguments

/-! ## What a character does -/

variable {current : Option Text} {quoted : Bool} {n : Nat} {rest : Text} {c : Char}

theorem arguments_backslash : arguments current quoted n ('\\' :: rest) =
    arguments (some (current.getD [])) quoted (n + 1) rest := by
  rw [arguments, if_pos rfl]

/-- An even number of backslashes: the quote begins or ends a quoted part. -/
theorem arguments_quote (h : n % 2 = 0) : arguments current quoted n ('"' :: rest) =
    arguments (some (current.getD [] ++ List.replicate (n / 2) '\\')) (!quoted) 0 rest := by
  rw [arguments, if_neg (by decide), if_pos rfl]
  exact if_neg (by omega)

/-- An odd number: the quote is a character. -/
theorem arguments_escaped (h : n % 2 = 1) : arguments current quoted n ('"' :: rest) =
    arguments (some (current.getD [] ++ List.replicate (n / 2) '\\' ++ ['"'])) quoted 0 rest := by
  rw [arguments, if_neg (by decide), if_pos rfl]
  exact if_pos h

theorem arguments_blank (h : isBlank c = true) : arguments current false n (c :: rest) =
    (current.map (· ++ List.replicate n '\\')).toList ++ arguments none false 0 rest := by
  have hback : c ≠ '\\' := by
    rintro rfl
    exact absurd h (by decide)
  have hquote : c ≠ '"' := by
    rintro rfl
    exact absurd h (by decide)
  rw [arguments, if_neg hback, if_neg hquote, if_pos ⟨h, rfl⟩]

theorem arguments_other (hback : c ≠ '\\') (hquote : c ≠ '"') (h : isBlank c = true → quoted = true) :
    arguments current quoted n (c :: rest) =
      arguments (some (current.getD [] ++ List.replicate n '\\' ++ [c])) quoted 0 rest := by
  rw [arguments, if_neg hback, if_neg hquote, if_neg]
  rintro ⟨hblank, hfalse⟩
  cases hfalse.symm.trans (h hblank)

/-! ## What is left of the backslashes and the quotes -/

def weight (text : Text) : Nat :=
  (text.map fun c => if c = '\\' then 2 else if c = '"' then 1 else 0).sum

/-- What the backslashes and quotes of a line come to, behind `n` backslashes. -/
def runs (n : Nat) : Text → Nat
  | [] => 2 * n
  | c :: rest =>
    if c = '\\' then runs (n + 1) rest
    else if c = '"' then n + runs 0 rest
    else 2 * n + runs 0 rest

@[simp] theorem weight_nil : weight [] = 0 := rfl

@[simp] theorem weight_append (a b : Text) : weight (a ++ b) = weight a + weight b := by
  simp [weight]

@[simp] theorem weight_replicate (n : Nat) : weight (List.replicate n '\\') = 2 * n := by
  simp [weight, Nat.mul_comm]

theorem weight_other (hback : c ≠ '\\') (hquote : c ≠ '"') : weight [c] = 0 := by
  simp [weight, hback, hquote]

/-- **The weight of the arguments** does not depend on what is quoted. -/
theorem weight_arguments (h : current = none → n = 0) :
    ((arguments current quoted n rest).map weight).sum = weight (current.getD []) + runs n rest := by
  induction rest generalizing current quoted n with
  | nil =>
    cases current with
    | none => simp [arguments, runs, h rfl]
    | some text => simp [arguments, runs]
  | cons c rest ih =>
    by_cases hback : c = '\\'
    · subst hback
      rw [arguments_backslash, ih (fun h => by cases h), runs, if_pos rfl]
      rfl
    · by_cases hquote : c = '"'
      · subst hquote
        rw [runs, if_neg hback, if_pos rfl]
        -- half of the backslashes weigh as much as all but the one that escapes the quote
        rcases Nat.mod_two_eq_zero_or_one n with heven | hodd
        · rw [arguments_quote heven, ih fun h => by cases h]
          simp only [Option.getD_some, weight_append, weight_replicate]
          omega
        · rw [arguments_escaped hodd, ih fun h => by cases h]
          have hone : weight ['"'] = 1 := by decide
          simp only [Option.getD_some, weight_append, weight_replicate, hone]
          omega
      · rw [runs, if_neg hback, if_neg hquote]
        by_cases hblank : isBlank c = true ∧ quoted = false
        · obtain ⟨hblank, rfl⟩ := hblank
          rw [arguments_blank hblank, List.map_append, List.sum_append, ih fun _ => rfl]
          cases current with
          | none => simp [h rfl]
          | some text =>
            simp only [Option.map_some, Option.toList_some, List.map_cons, List.map_nil,
              List.sum_cons, List.sum_nil, weight_append, weight_replicate, Option.getD_some,
              Option.getD_none, weight_nil]
            omega
        · have hother : isBlank c = true → quoted = true := by
            intro h
            by_contra hfalse
            exact hblank ⟨h, eq_false_of_ne_true hfalse⟩
          rw [arguments_other hback hquote hother, ih fun h => by cases h]
          simp only [Option.getD_some, weight_append, weight_replicate, weight_other hback hquote]
          omega

theorem weight_line (line : Text) : ((arguments none false 0 line).map weight).sum = runs 0 line := by
  rw [weight_arguments fun _ => rfl]
  exact Nat.zero_add _

end Argv
