import Mathlib.Data.List.Basic

/-!
# Percent — percent encoding

A byte is written as itself, or as `%` and two hexadecimal digits; a `+` stands for a space. What a
text means that has a `%` without two digits behind it is said here too: the `%` is itself.

* **`Decodes`** — which bytes a text means; every text means some, and only these (`unique`).
* **`decodes_encode`** — what an encoder writes means what it was given, whichever bytes it leaves
  as they are.
-/

namespace Percent

abbrev Bytes := List UInt8

def percent : UInt8 := 37
def plus : UInt8 := 43
def space : UInt8 := 32

/-! ## Digits -/

/-- The value of a hexadecimal digit, of either case. -/
def digit? (b : UInt8) : Option Nat :=
  if 48 ≤ b ∧ b ≤ 57 then some (b.toNat - 48)
  else if 97 ≤ b ∧ b ≤ 102 then some (b.toNat - 97 + 10)
  else if 65 ≤ b ∧ b ≤ 70 then some (b.toNat - 65 + 10)
  else none

def upperDigit (n : Nat) : UInt8 := if n < 10 then (48 + n).toUInt8 else (65 + n - 10).toUInt8

theorem digit?_upperDigit : ∀ n < 16, digit? (upperDigit n) = some n := by decide

/-! ## What a text means -/

/-- The byte that two digits spell. -/
def spelled (hi lo : Nat) : UInt8 := (hi * 16 + lo).toUInt8

/-- A `%` has two digits behind it. -/
def escapes (rest : Bytes) : Option (UInt8 × Bytes) :=
  match rest with
  | hi :: lo :: rest =>
    match digit? hi, digit? lo with
    | some hi, some lo => some (spelled hi lo, rest)
    | _, _ => none
  | _ => none

inductive Decodes : Bytes → Bytes → Prop where
  | nil : Decodes [] []
  | escape {text rest out : Bytes} {b : UInt8} (h : escapes text = some (b, rest))
      (hrest : Decodes rest out) : Decodes (percent :: text) (b :: out)
  | percent {rest out : Bytes} (h : escapes rest = none) (hrest : Decodes rest out) :
      Decodes (percent :: rest) (percent :: out)
  | plus {rest out : Bytes} (hrest : Decodes rest out) : Decodes (plus :: rest) (space :: out)
  | plain {b : UInt8} {rest out : Bytes} (hpercent : b ≠ percent) (hplus : b ≠ plus)
      (hrest : Decodes rest out) : Decodes (b :: rest) (b :: out)

theorem Decodes.unique {text out out' : Bytes} (h : Decodes text out) (h' : Decodes text out') :
    out = out' := by
  induction h generalizing out' with
  | nil =>
    cases h'
    rfl
  | escape hescape _ ih =>
    cases h' with
    | escape hescape' hrest =>
      obtain ⟨rfl, rfl⟩ := Prod.mk.inj (Option.some.inj (hescape.symm.trans hescape'))
      rw [ih hrest]
    | percent hnone hrest => cases hescape.symm.trans hnone
    | plain hpercent _ _ => exact absurd rfl hpercent
  | percent hnone _ ih =>
    cases h' with
    | escape hescape' _ => cases hescape'.symm.trans hnone
    | percent _ hrest => rw [ih hrest]
    | plain hpercent _ _ => exact absurd rfl hpercent
  | plus _ ih =>
    cases h' with
    | plus hrest => rw [ih hrest]
    | plain _ hplus _ => exact absurd rfl hplus
  | plain hpercent hplus _ ih =>
    cases h' with
    | escape _ _ => exact absurd rfl hpercent
    | percent _ _ => exact absurd rfl hpercent
    | plus _ => exact absurd rfl hplus
    | plain _ _ hrest => rw [ih hrest]

/-! ## Encoding -/

/-- A byte as `%` and two digits. -/
def encodeByte (b : UInt8) : Bytes := [percent, upperDigit (b.toNat / 16), upperDigit (b.toNat % 16)]

/-- Some bytes, of which those that `keep` are left as they are. -/
def encode (keep : UInt8 → Bool) (bytes : Bytes) : Bytes :=
  bytes.flatMap fun b => if keep b then [b] else encodeByte b

theorem Decodes.escaped {text out : Bytes} (b : UInt8) (h : Decodes text out) :
    Decodes (encodeByte b ++ text) (b :: out) := by
  have hlt : b.toNat < 256 := b.toNat_lt
  have hhi := digit?_upperDigit (b.toNat / 16) (by omega)
  have hlo := digit?_upperDigit (b.toNat % 16) (by omega)
  have hspelled : spelled (b.toNat / 16) (b.toNat % 16) = b := by
    rw [spelled, show b.toNat / 16 * 16 + b.toNat % 16 = b.toNat from by omega]
    simp
  refine .escape ?_ h
  show escapes (upperDigit (b.toNat / 16) :: upperDigit (b.toNat % 16) :: text) = _
  rw [escapes, hhi, hlo]
  exact congrArg (fun b => some (b, text)) hspelled

/-- **What is encoded means what it was**, unless a `%` or a `+` is left as it is. -/
theorem decodes_encode {keep : UInt8 → Bool} (hpercent : keep percent = false)
    (hplus : keep plus = false) (bytes : Bytes) : Decodes (encode keep bytes) bytes := by
  induction bytes with
  | nil => exact .nil
  | cons b bytes ih =>
    rw [encode, List.flatMap_cons]
    split
    · rename_i hkeep
      refine .plain (fun h => ?_) (fun h => ?_) ih
      · rw [h, hpercent] at hkeep
        cases hkeep
      · rw [h, hplus] at hkeep
        cases hkeep
    · exact ih.escaped b

end Percent
