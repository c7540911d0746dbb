import Jovian.Lib.Transducer
import Jovian.Lib.Utf8

/-!
# Utf8Decoder — Stata's output, as text

The kernel's messages are UTF-8, Stata's output need not be: a byte that is not UTF-8 is read as
Latin-1, and a character that a chunk ends inside waits for the rest (`m_pending`, the state).

* `decodeChar_eq` — the checks on the bytes of a sequence, against what they spell.
* `decodeFrom_append` — what is pending, read again with what follows it, is what it would have been.
* **`decoded_in_chunks`** — the chunks do not matter, and each goes out as text.
-/

namespace Jovian.Utf8Decoder

open Utf8 (Bytes isContinuation decodeChar decode isText)

/-! ## The decoder -/

/-- The bytes of the sequence that starts with `lead`, or 0 if it starts none. -/
def utf8Length (lead : UInt8) : Nat :=
  if lead < 0x80 then 1
  else if 0xC2 ≤ lead ∧ lead ≤ 0xDF then 2
  else if 0xE0 ≤ lead ∧ lead ≤ 0xEF then 3
  else if 0xF0 ≤ lead ∧ lead ≤ 0xF4 then 4
  else 0

def appendLatin1 (c : UInt8) : Bytes := [(0xC0 : UInt8) ||| (c >>> 6), (0x80 : UInt8) ||| (c &&& 0x3F)]

/-- Whether `c` starts a sequence of `length` bytes: overlong forms and surrogates are none. -/
def isSequence (length : Nat) (c : UInt8) (rest : Bytes) : Bool :=
  length ≤ rest.length + 1 && (rest.take (length - 1)).all isContinuation &&
    match rest with
    | [] => true
    | c1 :: _ =>
      if length = 3 then !(c = 0xE0 ∧ c1 < 0xA0) && !(c = 0xED ∧ c1 ≥ 0xA0)
      else if length = 4 then !(c = 0xF0 ∧ c1 < 0x90) && !(c = 0xF4 ∧ c1 ≥ 0x90)
      else true

/-- The loop of `push` from here on: what it puts out, and what is pending after it. -/
def decodeFrom : Bytes → Bytes × Bytes
  | [] => ([], [])
  | c :: rest =>
    let length := utf8Length c
    if length = 1 then (c :: (decodeFrom rest).1, (decodeFrom rest).2)
    else if length = 0 then (appendLatin1 c ++ (decodeFrom rest).1, (decodeFrom rest).2)
    else if rest.length + 1 < length ∧ rest.all isContinuation = true then ([], c :: rest)
    else if isSequence length c rest then
      (c :: rest.take (length - 1) ++ (decodeFrom (rest.drop (length - 1))).1,
        (decodeFrom (rest.drop (length - 1))).2)
    else (appendLatin1 c ++ (decodeFrom rest).1, (decodeFrom rest).2)
termination_by input => input.length
decreasing_by all_goals simp; try omega

def push (pending : Bytes) (bytes : Bytes) : Bytes × Bytes :=
  ((decodeFrom (pending ++ bytes)).2, (decodeFrom (pending ++ bytes)).1)

def finish (pending : Bytes) : Bytes := pending.flatMap appendLatin1

/-! ## What it is for -/

/-- Where the bytes spell a character they are kept, and every other byte is the UTF-8 of its
character in Latin-1. -/
def reference : Bytes → Bytes
  | [] => []
  | c :: bytes =>
    match _h : decodeChar (c :: bytes) with
    | some (_, rest) => (c :: bytes).take ((c :: bytes).length - rest.length) ++ reference rest
    | none => String.utf8EncodeChar (Char.ofNat c.toNat) ++ reference bytes
termination_by bytes => bytes.length
decreasing_by
  · exact Utf8.decodeChar_length _h
  · simp

theorem appendLatin1_eq {c : UInt8} (hc : 0x80 ≤ c.toNat) :
    appendLatin1 c = String.utf8EncodeChar (Char.ofNat c.toNat) :=
  Utf8.forall_byte
    (p := fun c => 0x80 ≤ c.toNat → appendLatin1 c = String.utf8EncodeChar (Char.ofNat c.toNat))
    (by decide +kernel) c hc

/-! ## The checks, and what the bytes spell -/

theorem utf8Length_eq (c : UInt8) : utf8Length c =
    if c.toNat < 0x80 then 1
    else if c.toNat < 0xC2 then 0
    else if c.toNat < 0xE0 then 2
    else if c.toNat < 0xF0 then 3
    else if c.toNat < 0xF5 then 4
    else 0 :=
  Utf8.forall_byte (p := fun c => utf8Length c = if c.toNat < 0x80 then 1
    else if c.toNat < 0xC2 then 0
    else if c.toNat < 0xE0 then 2
    else if c.toNat < 0xF0 then 3
    else if c.toNat < 0xF5 then 4
    else 0) (by decide +kernel) c

theorem decodeChar_ascii {c : UInt8} (rest : Bytes) (hc : c.toNat < 0x80) :
    decodeChar (c :: rest) = some (Char.ofNat c.toNat, rest) :=
  if_pos (UInt8.lt_iff_toNat_lt.mpr hc)

theorem decodeChar_high {c : UInt8} (rest : Bytes) (hc : 0x80 ≤ c.toNat) :
    decodeChar (c :: rest) = Utf8.decodeMany c rest :=
  if_neg (Nat.not_lt.mpr hc)

/-- What the decoder takes for a sequence of `n` bytes after the first is one. -/
def Spelled (n first smallest : Nat) (rest : Bytes) : Prop :=
  (n ≤ rest.length ∧ (rest.take n).all isContinuation = true) ∧
    smallest ≤ Utf8.code first (rest.take n) ∧ Utf8.code first (rest.take n) ≤ 0x10FFFF ∧
    ¬ (0xD800 ≤ Utf8.code first (rest.take n) ∧ Utf8.code first (rest.take n) ≤ 0xDFFF)

theorem isSequence_two {c : UInt8} (rest : Bytes) (hlo : 0xC2 ≤ c.toNat) (hhi : c.toNat < 0xE0) :
    isSequence 2 c rest = true ↔ Spelled 1 (c.toNat - 0xC0) 0x80 rest := by
  rcases rest with _ | ⟨b, rest⟩
  · simp [isSequence, Spelled]
  · simp [isSequence, Spelled, Utf8.isContinuation_iff, Utf8.code]
    omega

theorem isSequence_three {c : UInt8} (rest : Bytes) (hlo : 0xE0 ≤ c.toNat) (hhi : c.toNat < 0xF0) :
    isSequence 3 c rest = true ↔ Spelled 2 (c.toNat - 0xE0) 0x800 rest := by
  rcases rest with _ | ⟨b, _ | ⟨d, rest⟩⟩
  · simp [isSequence, Spelled]
  · simp [isSequence, Spelled]
  · simp [isSequence, Spelled, Utf8.isContinuation_iff, Utf8.code, UInt8.lt_iff_toNat_lt,
      UInt8.le_iff_toNat_le, ← UInt8.toNat_inj]
    omega

theorem isSequence_four {c : UInt8} (rest : Bytes) (hlo : 0xF0 ≤ c.toNat) (hhi : c.toNat < 0xF5) :
    isSequence 4 c rest = true ↔ Spelled 3 (c.toNat - 0xF0) 0x10000 rest := by
  rcases rest with _ | ⟨b, _ | ⟨d, _ | ⟨e, rest⟩⟩⟩
  · simp [isSequence, Spelled]
  · simp [isSequence, Spelled]
  · simp [isSequence, Spelled]
  · simp [isSequence, Spelled, Utf8.isContinuation_iff, Utf8.code, UInt8.lt_iff_toNat_lt,
      UInt8.le_iff_toNat_le, ← UInt8.toNat_inj]
    omega

instance (n first smallest : Nat) (rest : Bytes) : Decidable (Spelled n first smallest rest) :=
  inferInstanceAs (Decidable (_ ∧ _))

/-- A byte that starts no sequence spells no character. -/
theorem decodeChar_none {c : UInt8} (rest : Bytes) (hc : utf8Length c = 0) :
    decodeChar (c :: rest) = none := by
  rw [utf8Length_eq] at hc
  have hlead := Utf8.lead_eq c
  have hlt : c.toNat < 256 := c.toNat_lt
  have hcases : (0x80 ≤ c.toNat ∧ c.toNat < 0xC2) ∨ 0xF5 ≤ c.toNat := by
    split_ifs at hc <;> omega
  rw [decodeChar_high rest (by omega)]
  split_ifs at hlead with h₁ h₂ h₃ h₄
  · rw [Utf8.decodeMany, hlead, Option.bind_none]
  · -- an overlong form
    have hsnd := Utf8.decodeMany_eq rest hlead (by omega) (by decide)
    rw [if_neg] at hsnd
    · exact Option.map_eq_none_iff.mp hsnd
    · rintro ⟨⟨hlen, -⟩, hcode, -⟩
      obtain ⟨b, rest, rfl⟩ := List.exists_cons_of_length_pos hlen
      simp only [Utf8.code, List.take_succ_cons, List.take_zero, List.foldl_cons, List.foldl_nil] at hcode
      omega
  · omega
  · -- beyond Unicode
    have hsnd := Utf8.decodeMany_eq rest hlead (by omega) (by decide)
    rw [if_neg] at hsnd
    · exact Option.map_eq_none_iff.mp hsnd
    · rintro ⟨⟨hlen, -⟩, -, hcode, -⟩
      rcases rest with _ | ⟨b, _ | ⟨d, _ | ⟨e, rest⟩⟩⟩
      · simp at hlen
      · simp at hlen
      · simp at hlen
      · simp only [Utf8.code, List.take_succ_cons, List.take_zero, List.foldl_cons, List.foldl_nil] at hcode
        omega
  · rw [Utf8.decodeMany, hlead, Option.bind_none]

/-- **The checks are right**: a sequence is taken where the bytes spell a character. -/
theorem decodeChar_eq {c : UInt8} (rest : Bytes) (hc : 2 ≤ utf8Length c) :
    (decodeChar (c :: rest)).map Prod.snd =
      if isSequence (utf8Length c) c rest = true then some (rest.drop (utf8Length c - 1)) else none := by
  have hlead := Utf8.lead_eq c
  have hlength := utf8Length_eq c
  split_ifs at hlength with h₁ h₂ h₃ h₄ h₅
  · omega
  · omega
  · rw [if_neg (by omega), if_pos h₃] at hlead
    have hsnd := Utf8.decodeMany_eq rest hlead (by omega) (by decide)
    rw [decodeChar_high rest (by omega), hsnd, hlength]
    exact if_congr (isSequence_two rest (by omega) h₃).symm rfl rfl
  · rw [if_neg (by omega), if_neg h₃, if_pos h₄] at hlead
    have hsnd := Utf8.decodeMany_eq rest hlead (by omega) (by decide)
    rw [decodeChar_high rest (by omega), hsnd, hlength]
    exact if_congr (isSequence_three rest (by omega) h₄).symm rfl rfl
  · rw [if_neg (by omega), if_neg h₃, if_neg h₄, if_pos (by omega)] at hlead
    have hsnd := Utf8.decodeMany_eq rest hlead (by omega) (by decide)
    rw [decodeChar_high rest (by omega), hsnd, hlength]
    exact if_congr (isSequence_four rest (by omega) h₅).symm rfl rfl
  · omega

theorem decodeChar_latin1 {c : UInt8} (hc : 0x80 ≤ c.toNat) (more : Bytes) :
    decodeChar (appendLatin1 c ++ more) = some (Char.ofNat c.toNat, more) := by
  have hshort : decodeChar (appendLatin1 c) = some (Char.ofNat c.toNat, []) :=
    Utf8.forall_byte
      (p := fun c => 0x80 ≤ c.toNat → decodeChar (appendLatin1 c) = some (Char.ofNat c.toNat, []))
      (by decide +kernel) c hc
  obtain ⟨w, hw, hmore⟩ := Utf8.decodeChar_local hshort
  rw [hw, List.append_nil]
  exact hmore more

theorem high_of_utf8Length {c : UInt8} (hone : utf8Length c ≠ 1) : 0x80 ≤ c.toNat := by
  rw [utf8Length_eq] at hone
  by_contra hlow
  exact hone (if_pos (Nat.not_le.mp hlow))

/-! ## The loop -/

/-- A chunk ends inside a sequence. -/
def Waits : Bytes → Prop
  | [] => False
  | c :: rest => utf8Length c ≠ 1 ∧ utf8Length c ≠ 0 ∧ rest.length + 1 < utf8Length c ∧
      rest.all isContinuation = true

/-- Where the first byte spells nothing with those that follow, nor may with what is to come. -/
def Strays (c : UInt8) (rest : Bytes) : Prop :=
  utf8Length c ≠ 1 ∧ (utf8Length c ≠ 0 →
    ¬ (rest.length + 1 < utf8Length c ∧ rest.all isContinuation = true) ∧
      isSequence (utf8Length c) c rest = false)

theorem Strays.decodeChar {c : UInt8} {rest : Bytes} (h : Strays c rest) :
    decodeChar (c :: rest) = none := by
  obtain ⟨hone, hseq⟩ := h
  by_cases hzero : utf8Length c = 0
  · exact decodeChar_none rest hzero
  · have hsnd := decodeChar_eq rest (c := c) (by omega)
    rw [if_neg (by simp [(hseq hzero).2])] at hsnd
    exact Option.map_eq_none_iff.mp hsnd

theorem Waits.decodeChar {c : UInt8} {rest : Bytes} (h : Waits (c :: rest)) :
    decodeChar (c :: rest) = none := by
  obtain ⟨hone, hzero, hlen, -⟩ := h
  have hsnd := decodeChar_eq rest (c := c) (by omega)
  rw [if_neg (by simp [isSequence, Nat.not_le.mpr hlen])] at hsnd
  exact Option.map_eq_none_iff.mp hsnd

theorem decodeFrom_waits {input : Bytes} (h : Waits input) : decodeFrom input = ([], input) := by
  cases input with
  | nil => cases h
  | cons c rest =>
    obtain ⟨hone, hzero, hwait⟩ := h
    rw [decodeFrom]
    simp only [hone, hzero, hwait, and_self, if_true, if_false]

theorem decodeFrom_strays {c : UInt8} {rest : Bytes} (h : Strays c rest) :
    decodeFrom (c :: rest) = (appendLatin1 c ++ (decodeFrom rest).1, (decodeFrom rest).2) := by
  obtain ⟨hone, hseq⟩ := h
  rw [decodeFrom]
  by_cases hzero : utf8Length c = 0
  · simp only [hzero, Nat.zero_ne_one, if_true, if_false]
  · obtain ⟨hwait, hno⟩ := hseq hzero
    simp only [hone, hzero, hwait, hno, if_false, Bool.false_eq_true]

/-- The bytes of a character are put out as they are. -/
theorem decodeFrom_char {w more : Bytes} {ch : Char}
    (h : ∀ more, decodeChar (w ++ more) = some (ch, more)) :
    decodeFrom (w ++ more) = (w ++ (decodeFrom more).1, (decodeFrom more).2) := by
  have hmore := h more
  cases w with
  | nil => exact absurd (Utf8.decodeChar_length (h more)) (Nat.lt_irrefl _)
  | cons c w =>
    rw [List.cons_append] at hmore ⊢
    rw [decodeFrom]
    by_cases hone : utf8Length c = 1
    · have hlow : c.toNat < 0x80 := by
        rw [utf8Length_eq] at hone
        split_ifs at hone <;> omega
      rw [decodeChar_ascii _ hlow] at hmore
      obtain ⟨-, hw⟩ := Prod.mk.inj (Option.some.inj hmore)
      obtain rfl : w = [] := List.append_left_eq_self.mp hw
      simp [hone]
    · by_cases hzero : utf8Length c = 0
      · rw [decodeChar_none _ hzero] at hmore
        cases hmore
      · have hsnd := decodeChar_eq (w ++ more) (c := c) (by omega)
        rw [hmore] at hsnd
        split at hsnd
        · rename_i hseq
          have hdrop : (w ++ more).drop (utf8Length c - 1) = more := (Option.some.inj hsnd).symm
          have hwait : ¬ ((w ++ more).length + 1 < utf8Length c ∧
              (w ++ more).all isContinuation = true) := by
            simp only [isSequence, Bool.and_eq_true, decide_eq_true_eq] at hseq
            exact fun h => absurd h.1 (Nat.not_lt.mpr hseq.1.1)
          have htake : (w ++ more).take (utf8Length c - 1) = w := by
            have hsplit := List.take_append_drop (utf8Length c - 1) (w ++ more)
            rw [hdrop] at hsplit
            exact List.append_cancel_right hsplit
          simp only [hone, hzero, hwait, hseq, if_true, if_false, hdrop, htake]
        · cases hsnd

/-- The loop takes a character's bytes, or a byte that strays, till nothing is left or the rest
waits. -/
theorem decodeFrom_induct {P : Bytes → Bytes → Bytes → Prop} (nil : P [] [] [])
    (waits : ∀ input, Waits input → P input [] input)
    (char : ∀ w ch rest out pending, (∀ more, decodeChar (w ++ more) = some (ch, more)) →
      P rest out pending → P (w ++ rest) (w ++ out) pending)
    (strays : ∀ c rest out pending, Strays c rest → P rest out pending →
      P (c :: rest) (appendLatin1 c ++ out) pending)
    (input : Bytes) : P input (decodeFrom input).1 (decodeFrom input).2 := by
  induction hn : input.length using Nat.strong_induction_on generalizing input with
  | _ n ih =>
    cases input with
    | nil =>
      rw [decodeFrom]
      exact nil
    | cons c rest =>
      by_cases hwaits : Waits (c :: rest)
      · rw [decodeFrom_waits hwaits]
        exact waits _ hwaits
      · cases hchar : decodeChar (c :: rest) with
        | some r =>
          obtain ⟨ch, more⟩ := r
          have hlen := Utf8.decodeChar_length hchar
          obtain ⟨w, hw, hlocal⟩ := Utf8.decodeChar_local hchar
          rw [hw, decodeFrom_char hlocal]
          exact char w ch _ _ _ hlocal (ih _ (hn ▸ hlen) _ rfl)
        | none =>
          have hone : utf8Length c ≠ 1 := by
            intro hone
            have hlow : c.toNat < 0x80 := by
              rw [utf8Length_eq] at hone
              split_ifs at hone <;> omega
            rw [decodeChar_ascii rest hlow] at hchar
            cases hchar
          have hstrays : Strays c rest := by
            refine ⟨hone, fun hzero => ⟨fun h => hwaits ⟨hone, hzero, h⟩, ?_⟩⟩
            have hsnd := decodeChar_eq rest (c := c) (by omega)
            rw [hchar] at hsnd
            by_contra hseq
            rw [if_pos (Bool.not_eq_false _ ▸ hseq)] at hsnd
            cases hsnd
          rw [decodeFrom_strays hstrays]
          exact strays c rest _ _ hstrays (ih _ (hn ▸ Nat.lt_succ_self _) _ rfl)

/-! ## Chunks -/

/-- A byte that strays does so whatever is to come. -/
theorem Strays.append {c : UInt8} {rest : Bytes} (h : Strays c rest) (more : Bytes) :
    Strays c (rest ++ more) := by
  refine ⟨h.1, fun hzero => ?_⟩
  obtain ⟨hwait, hseq⟩ := h.2 hzero
  have hone := h.1
  by_cases hlen : utf8Length c ≤ rest.length + 1
  · refine ⟨fun h => ?_, ?_⟩
    · rw [List.length_append] at h
      omega
    · have htake : (rest ++ more).take (utf8Length c - 1) = rest.take (utf8Length c - 1) :=
        List.take_append_of_le_length (by omega)
      cases rest with
      | nil =>
        simp only [List.length_nil] at hlen
        omega
      | cons c1 rest =>
        have hmore : utf8Length c ≤ (c1 :: (rest ++ more)).length + 1 := by
          simp only [List.length_cons, List.length_append] at hlen ⊢
          omega
        unfold isSequence at hseq ⊢
        rw [htake, List.cons_append, decide_eq_true hmore]
        rw [decide_eq_true hlen] at hseq
        exact hseq
  · have hnot : rest.all isContinuation = false :=
      Bool.eq_false_iff.mpr fun hall => hwait ⟨Nat.not_le.mp hlen, hall⟩
    refine ⟨fun h => ?_, ?_⟩
    · rw [List.all_append, hnot] at h
      cases h.2
    · have hinitial : ((rest ++ more).take (utf8Length c - 1)).all isContinuation = false := by
        rw [List.take_append, List.take_of_length_le (by omega), List.all_append, hnot,
          Bool.false_and]
      unfold isSequence
      rw [hinitial, Bool.and_false, Bool.false_and]

/-- What is pending, read again with what follows it, is what it would have been. -/
theorem decodeFrom_append (a b : Bytes) :
    decodeFrom (a ++ b) = ((decodeFrom a).1 ++ (decodeFrom ((decodeFrom a).2 ++ b)).1,
      (decodeFrom ((decodeFrom a).2 ++ b)).2) := by
  refine decodeFrom_induct (P := fun a out pending => decodeFrom (a ++ b) =
    (out ++ (decodeFrom (pending ++ b)).1, (decodeFrom (pending ++ b)).2)) ?_ ?_ ?_ ?_ a
  · rfl
  · exact fun input _ => rfl
  · intro w ch rest out pending hchar ih
    rw [List.append_assoc, decodeFrom_char hchar, ih, List.append_assoc]
  · intro c rest out pending hstrays ih
    rw [List.cons_append, decodeFrom_strays (hstrays.append b), ih, List.append_assoc]

theorem decodeFrom_pending (input : Bytes) :
    decodeFrom (decodeFrom input).2 = ([], (decodeFrom input).2) :=
  decodeFrom_induct (P := fun _ _ pending => decodeFrom pending = ([], pending))
    (by rw [decodeFrom]) (fun _ h => decodeFrom_waits h) (fun _ _ _ _ _ _ ih => ih)
    (fun _ _ _ _ _ ih => ih) input

/-- At most three bytes wait. -/
theorem length_pending (input : Bytes) : (decodeFrom input).2.length ≤ 3 := by
  refine decodeFrom_induct (P := fun _ _ pending => pending.length ≤ 3) (Nat.zero_le _) ?_
    (fun _ _ _ _ _ _ ih => ih) (fun _ _ _ _ _ ih => ih) input
  intro input h
  cases input with
  | nil => cases h
  | cons c rest =>
    have hlen := h.2.2.1
    have hfour : utf8Length c ≤ 4 := by
      unfold utf8Length
      split_ifs <;> decide
    simp only [List.length_cons]
    omega

/-- What goes out is text. -/
theorem isText_decodeFrom (input : Bytes) : isText (decodeFrom input).1 = true := by
  rw [Utf8.isText_eq]
  refine decodeFrom_induct (P := fun _ out _ => (decode out).isSome = true) ?_ ?_ ?_ ?_ input
  · rw [Utf8.decode_nil]
    rfl
  · intro _ _
    rw [Utf8.decode_nil]
    rfl
  · intro w ch rest out pending hchar ih
    rw [Utf8.decode_cons (hchar out), Option.isSome_map]
    exact ih
  · intro c rest out pending hstrays ih
    rw [Utf8.decode_cons (decodeChar_latin1 (high_of_utf8Length hstrays.1) out), Option.isSome_map]
    exact ih

/-! ## The reference -/

theorem reference_char {w rest : Bytes} {ch : Char}
    (h : ∀ more, decodeChar (w ++ more) = some (ch, more)) :
    reference (w ++ rest) = w ++ reference rest := by
  have hmore := h rest
  cases w with
  | nil => exact absurd (Utf8.decodeChar_length (h rest)) (Nat.lt_irrefl _)
  | cons c w =>
    rw [List.cons_append] at hmore ⊢
    rw [reference]
    split
    · rename_i heq
      rw [hmore] at heq
      obtain ⟨-, rfl⟩ := Prod.mk.inj (Option.some.inj heq)
      have hlen : (c :: (w ++ rest)).length - rest.length = (c :: w).length := by
        simp only [List.length_cons, List.length_append]
        omega
      rw [hlen, ← List.cons_append, List.take_left]
    · rename_i heq
      rw [hmore] at heq
      cases heq

theorem reference_byte {c : UInt8} {rest : Bytes} (h : decodeChar (c :: rest) = none)
    (hc : 0x80 ≤ c.toNat) : reference (c :: rest) = appendLatin1 c ++ reference rest := by
  rw [reference]
  split
  · rename_i heq
    rw [h] at heq
    cases heq
  · rw [appendLatin1_eq hc]

theorem reference_continuation {rest : Bytes} (h : rest.all isContinuation = true) :
    reference rest = rest.flatMap appendLatin1 := by
  induction rest with
  | nil => rw [reference, List.flatMap_nil]
  | cons c rest ih =>
    rw [List.all_cons, Bool.and_eq_true, Utf8.isContinuation_iff] at h
    have hzero : utf8Length c = 0 := by
      rw [utf8Length_eq, if_neg (by omega), if_pos (by omega)]
    rw [reference_byte (decodeChar_none rest hzero) h.1.1, ih h.2, List.flatMap_cons]

theorem reference_waits {input : Bytes} (h : Waits input) :
    reference input = input.flatMap appendLatin1 := by
  cases input with
  | nil => cases h
  | cons c rest =>
    rw [reference_byte (Waits.decodeChar h) (high_of_utf8Length h.1), reference_continuation h.2.2.2,
      List.flatMap_cons]

/-- What goes out, and what is pending once nothing more comes, is the reference. -/
theorem decodeFrom_finish (input : Bytes) :
    (decodeFrom input).1 ++ finish (decodeFrom input).2 = reference input := by
  refine decodeFrom_induct (P := fun input out pending => out ++ finish pending = reference input)
    ?_ ?_ ?_ ?_ input
  · rw [reference]
    rfl
  · exact fun input h => (reference_waits h).symm
  · intro w ch rest out pending hchar ih
    rw [reference_char hchar, List.append_assoc, ih]
  · intro c rest out pending hstrays ih
    rw [reference_byte hstrays.decodeChar (high_of_utf8Length hstrays.1), List.append_assoc, ih]

/-- Text is its own reference. -/
theorem reference_of_isText {bytes : Bytes} (h : isText bytes = true) : reference bytes = bytes := by
  rw [Utf8.isText_eq] at h
  induction hn : bytes.length using Nat.strong_induction_on generalizing bytes with
  | _ n ih =>
    cases bytes with
    | nil => rw [reference]
    | cons c rest =>
      cases hchar : decodeChar (c :: rest) with
      | none =>
        rw [decode, if_neg (List.cons_ne_nil _ _)] at h
        split at h
        · cases h
        · rename_i heq
          rw [hchar] at heq
          cases heq
      | some r =>
        obtain ⟨ch, more⟩ := r
        rw [Utf8.decode_cons hchar, Option.isSome_map] at h
        have hlen := Utf8.decodeChar_length hchar
        obtain ⟨w, hw, hlocal⟩ := Utf8.decodeChar_local hchar
        rw [hw, reference_char hlocal, ih _ (hn ▸ hlen) h rfl]

/-! ## The chunks -/

theorem run_push {pending : Bytes} (h : decodeFrom pending = ([], pending)) (chunks : List Bytes) :
    Transducer.run push pending chunks = ((decodeFrom (pending ++ chunks.flatten)).2,
      (decodeFrom (pending ++ chunks.flatten)).1) := by
  induction chunks generalizing pending with
  | nil => rw [List.flatten_nil, List.append_nil, h, Transducer.run_nil]
  | cons chunk chunks ih =>
    rw [Transducer.run_cons, push, ih (decodeFrom_pending _), List.flatten_cons, ← List.append_assoc,
      decodeFrom_append (pending ++ chunk)]

/-- **The chunks do not matter.** Together with what `finish` adds, what the chunks put out is the
reference of all the bytes, which are left as they are where they are text; each chunk puts out
text, and at most three bytes are pending after it. -/
theorem decoded_in_chunks (chunks : List Bytes) :
    let done := Transducer.run push [] chunks
    done.2 ++ finish done.1 = reference chunks.flatten ∧
      (isText chunks.flatten = true → done.2 ++ finish done.1 = chunks.flatten) ∧
      ∀ before chunk after, chunks = before ++ chunk :: after →
        let r := push (Transducer.run push [] before).1 chunk
        isText r.2 = true ∧ r.1.length ≤ 3 := by
  have hnothing : decodeFrom [] = ([], []) := by rw [decodeFrom]
  have hrun := run_push hnothing chunks
  rw [List.nil_append] at hrun
  have hdone : (Transducer.run push [] chunks).2 ++ finish (Transducer.run push [] chunks).1 =
      reference chunks.flatten := by
    rw [hrun]
    exact decodeFrom_finish chunks.flatten
  refine ⟨hdone, fun htext => ?_, fun before chunk _ _ => ?_⟩
  · rw [hdone, reference_of_isText htext]
  · exact ⟨isText_decodeFrom _, length_pending _⟩

end Jovian.Utf8Decoder
