import Jovian.Wire.Serializer

/-!
# Jovian — the check by position (`isOneLineOfUtf8` in `zmq_serializer.cpp`)

The check has `p`, the first of `n` bytes, and a position `i`. Here every read of memory is one
that can fail: `none` is a read past the end. Eight bytes are copied into a number in the host's
byte order, which may be either.

* **`isOneLineAt_eq`** — from a position inside, nothing is read past the end, and the answer is
  `isOneLineOfUtf8` of the bytes from there.
* **`reads_one_line`** — the answer is `true` for UTF-8 with no byte below `0x20`, and for nothing
  else.
-/

namespace Jovian.Wire

open Utf8 (Bytes)

/-! ## The loops -/

/-- Which byte of a number comes first in memory. -/
inductive Endian where
  | little
  | big
deriving DecidableEq, Repr

def Endian.order : Endian → Bytes → Bytes
  | .little, bs => bs
  | .big, bs => bs.reverse

/-- `std::memcpy(&v, p + i, 8)` -/
def memcpyEight (e : Endian) (p : Bytes) (i : Nat) : Option UInt64 :=
  if i + 8 ≤ p.length then some (UInt64.ofNat (Utf8.word (e.order ((p.drop i).take 8)))) else none

/-- The inner loop: eight bytes at a time while they are ASCII and none is below `0x20`. -/
def skipEight (e : Endian) (p : Bytes) (i : Nat) : Option Nat :=
  if _h : i + 8 ≤ p.length then
    match memcpyEight e p i with
    | none => none
    | some v => if Utf8.plainEight v = true then skipEight e p (i + 8) else some i
  else some i
termination_by p.length - i

/-- `code` with the `count` bytes from `p[at]` on; `some none` where one of them is no
continuation byte. -/
def continuationAt (p : Bytes) : (count pos : Nat) → (code : UInt32) → Option (Option UInt32)
  | 0, _, code => some (some code)
  | count + 1, pos, code =>
    match p[pos]? with
    | none => none
    | some next =>
      if next &&& 0xC0 ≠ 0x80 then some none
      else continuationAt p count (pos + 1) ((code <<< 6) ||| (next &&& 0x3F).toUInt32)

theorem skipEight_le {e : Endian} {p : Bytes} {i j : Nat} (h : skipEight e p i = some j) : i ≤ j := by
  induction i using skipEight.induct e p with
  | case1 i hroom hread =>
    rw [skipEight, dif_pos hroom, hread] at h
    cases h
  | case2 i hroom v hread hplain ih =>
    rw [skipEight, dif_pos hroom, hread] at h
    have hle := ih (by simpa [hplain] using h)
    omega
  | case3 i hroom v hread hplain =>
    rw [skipEight, dif_pos hroom, hread] at h
    obtain rfl : i = j := by simpa [hplain] using h
    exact Nat.le_refl _
  | case4 i hroom =>
    rw [skipEight, dif_neg hroom] at h
    exact Nat.le_of_eq (Option.some.inj h)

/-- The outer loop, from position `i`. -/
def isOneLineAt (e : Endian) (p : Bytes) (i : Nat) : Option Bool :=
  if _h : i < p.length then
    match _hskip : skipEight e p i with
    | none => none
    | some j =>
      if _hend : j ≥ p.length then some true
      else match p[j]? with
        | none => none
        | some c =>
          if c < 0x20 then some false
          else if c < 0x80 then isOneLineAt e p (j + 1)
          else match Utf8.lead c with
            | none => some false
            | some (more, code, smallest) =>
              -- the source's `length` counts the first byte, `more` those behind it
              if j + (more + 1) > p.length then some false
              else match continuationAt p more (j + 1) code with
                | none => none
                | some none => some false
                | some (some code) =>
                  if code < smallest ∨ code > 0x10FFFF ∨ (0xD800 ≤ code ∧ code ≤ 0xDFFF) then some false
                  else isOneLineAt e p (j + (more + 1))
  else some true
termination_by p.length - i
decreasing_by
  · have hle := skipEight_le _hskip
    omega
  · have hle := skipEight_le _hskip
    omega

/-! ## What they read -/

theorem plainEight_order (e : Endian) {bs : Bytes} (hlen : bs.length = 8) :
    Utf8.plainEight (UInt64.ofNat (Utf8.word (e.order bs))) =
      Utf8.plainEight (UInt64.ofNat (Utf8.word bs)) := by
  cases e with
  | little => rfl
  | big =>
    have hrev : bs.reverse.length = 8 := by rw [List.length_reverse, hlen]
    rw [Bool.eq_iff_iff, Utf8.plainEight_iff hlen]
    show Utf8.plainEight (UInt64.ofNat (Utf8.word bs.reverse)) = true ↔ _
    rw [Utf8.plainEight_iff hrev]
    simp only [List.mem_reverse]

theorem memcpyEight_eq {e : Endian} {p : Bytes} {i : Nat} (h : i + 8 ≤ p.length) :
    memcpyEight e p i = some (UInt64.ofNat (Utf8.word (e.order ((p.drop i).take 8)))) :=
  if_pos h

/-- The inner loop reads inside, and stops where `skipPlain` does. -/
theorem skipEight_spec (e : Endian) {p : Bytes} {i : Nat} (hi : i ≤ p.length) :
    ∃ j, skipEight e p i = some j ∧ j ≤ p.length ∧ p.drop j = skipPlain (p.drop i) := by
  by_cases hroom : i + 8 ≤ p.length
  · have height : ((p.drop i).take 8).length = 8 := by
      rw [List.length_take, List.length_drop]
      omega
    have hlong : 8 ≤ (p.drop i).length := by
      rw [List.length_drop]
      omega
    rw [skipEight, dif_pos hroom, memcpyEight_eq hroom, skipPlain]
    simp only [plainEight_order e height, hlong, true_and]
    by_cases hplain : Utf8.plainEight (UInt64.ofNat (Utf8.word ((p.drop i).take 8))) = true
    · rw [if_pos hplain, if_pos hplain, List.drop_drop]
      exact skipEight_spec e hroom
    · rw [if_neg hplain, if_neg hplain]
      exact ⟨i, rfl, hi, rfl⟩
  · have hshort : ¬ 8 ≤ (p.drop i).length := by
      rw [List.length_drop]
      omega
    rw [skipEight, dif_neg hroom, skipPlain, if_neg fun h => hshort h.1]
    exact ⟨i, rfl, hi, rfl⟩
termination_by p.length - i

/-- As many bytes as there are: the loop over them reads inside, and reads what `continuation`
does. -/
theorem continuationAt_eq {p : Bytes} {count pos : Nat} (code : UInt32)
    (h : pos + count ≤ p.length) : continuationAt p count pos code =
      some ((Utf8.continuation count code (p.drop pos)).map Prod.fst) := by
  induction count generalizing pos code with
  | zero => rfl
  | succ count ih =>
    have hin : pos < p.length := by omega
    rw [continuationAt, List.getElem?_eq_getElem hin, List.drop_eq_getElem_cons hin, Utf8.continuation]
    simp only [ne_eq, ite_not]
    split
    · exact ih _ (by omega)
    · rfl

theorem continuation_drop {n : Nat} {code code' : UInt32} {bs rest : Bytes}
    (h : Utf8.continuation n code bs = some (code', rest)) : rest = bs.drop n := by
  rw [Utf8.continuation_eq] at h
  split at h
  · exact (Prod.mk.inj (Option.some.inj h)).2.symm
  · cases h

theorem continuation_short {n : Nat} {bs : Bytes} (code : UInt32) (h : bs.length < n) :
    Utf8.continuation n code bs = none := by
  rw [Utf8.continuation_eq, if_neg fun hlen => Nat.not_le_of_lt h hlen.1]

theorem skipPlain_nil : skipPlain [] = [] := by
  rw [skipPlain, if_neg fun h => absurd h.1 (by decide)]

theorem isOneLineOfUtf8_end {bs : Bytes} (h : skipPlain bs = []) : isOneLineOfUtf8 bs = true := by
  rw [isOneLineOfUtf8]
  split
  · rfl
  · next hcons =>
    rw [h] at hcons
    cases hcons

/-- **By position or byte after byte**: from a position inside, nothing past the end is read, and
the answer is that about the bytes from there. -/
theorem isOneLineAt_eq (e : Endian) {p : Bytes} {i : Nat} (hi : i ≤ p.length) :
    isOneLineAt e p i = some (isOneLineOfUtf8 (p.drop i)) := by
  obtain ⟨j, hskip, hj, hdrop⟩ := skipEight_spec e hi
  have hle := skipEight_le hskip
  by_cases hin : i < p.length
  · rw [isOneLineAt, dif_pos hin]
    split
    · next hnone =>
      rw [hskip] at hnone
      cases hnone
    · next j' hskip' =>
      obtain rfl : j = j' := Option.some.inj (hskip.symm.trans hskip')
      by_cases hend : p.length ≤ j
      · have hnil : skipPlain (p.drop i) = [] := by rw [← hdrop, List.drop_of_length_le hend]
        rw [dif_pos hend, isOneLineOfUtf8_end hnil]
      · have hread : j < p.length := Nat.not_le.1 hend
        have hcons : skipPlain (p.drop i) = p[j] :: p.drop (j + 1) := by
          rw [← hdrop, List.drop_eq_getElem_cons hread]
        rw [dif_neg hend, List.getElem?_eq_getElem hread, isOneLineOfUtf8_cons hcons]
        simp only
        generalize p[j] = c
        split
        · rfl
        · split
          · exact isOneLineAt_eq e hread
          · rw [Utf8.decodeMany]
            split
            · next hnone =>
              rw [hnone]
              rfl
            · next more code smallest hlead =>
              rw [hlead, Option.bind_some]
              split
              · next hshort =>
                rw [continuation_short code (by rw [List.length_drop]; omega)]
                rfl
              · next hlong =>
                rw [continuationAt_eq code (by omega)]
                cases hcont : Utf8.continuation more code (p.drop (j + 1)) with
                | none => rfl
                | some r =>
                  have hrest := continuation_drop hcont
                  rw [List.drop_drop] at hrest
                  simp only [Option.map_some, Option.bind_some]
                  split
                  · rfl
                  · rw [isOneLineAt_eq e (by omega), hrest]
                    congr 3
                    omega
  · have hnil : p.drop i = [] := List.drop_of_length_le (Nat.not_lt.1 hin)
    rw [isOneLineAt, dif_neg hin, hnil, isOneLineOfUtf8_end skipPlain_nil]
termination_by p.length - i

/-! ## The answer -/

/-- No character below `0x20` is no byte below it: those of several bytes have none below
`0x80`. -/
theorem chars_iff_bytes (cs : List Char) :
    (∀ c ∈ cs, 0x20 ≤ c.toNat) ↔ ∀ b ∈ cs.flatMap String.utf8EncodeChar, 0x20 ≤ b.toNat := by
  have each : ∀ c : Char, 0x20 ≤ c.toNat ↔ ∀ b ∈ String.utf8EncodeChar c, 0x20 ≤ b.toNat := by
    intro c
    by_cases hc : c.toNat < 128
    · rw [Utf8.utf8EncodeChar_ascii hc]
      have hbyte : (c.toNat.toUInt8).toNat = c.toNat :=
        UInt8.toNat_ofNat_of_lt' (Nat.lt_trans hc (by decide))
      simp only [List.mem_singleton, forall_eq, hbyte]
    · have hbytes := Utf8.le_of_mem_utf8EncodeChar (Nat.not_lt.1 hc)
      refine iff_of_true (by omega) fun b hb => ?_
      have hb' := hbytes b hb
      omega
  simp only [List.mem_flatMap, forall_exists_index, and_imp]
  constructor
  · intro h b c hc
    exact (each c).1 (h c hc) b
  · intro h c hc
    exact (each c).2 fun b hb => h b c hc hb

/-- **The bytes of one line of text**, in either byte order of the host: the check never reads past
the end, and answers `true` for exactly the UTF-8 encodings of a text that have no byte below
`0x20`. -/
theorem reads_one_line (e : Endian) (p : Bytes) :
    ∃ answer, isOneLineAt e p 0 = some answer ∧
      (answer = true ↔
        (∃ text : List Char, p = text.flatMap String.utf8EncodeChar) ∧ ∀ b ∈ p, 0x20 ≤ b.toNat) := by
  refine ⟨_, isOneLineAt_eq e (Nat.zero_le _), ?_⟩
  rw [List.drop_zero, isOneLineOfUtf8_iff, IsOneLine]
  simp only [Utf8.decode_eq_some_iff]
  constructor
  · rintro ⟨cs, rfl, hcs⟩
    exact ⟨⟨cs, rfl⟩, (chars_iff_bytes cs).1 hcs⟩
  · rintro ⟨⟨cs, rfl⟩, hbytes⟩
    exact ⟨cs, rfl, (chars_iff_bytes cs).2 hbytes⟩

end Jovian.Wire
