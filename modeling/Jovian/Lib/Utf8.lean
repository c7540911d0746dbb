import Mathlib.Data.List.Basic
import Mathlib.Data.Nat.Bitwise
import Mathlib.Tactic.Ring

/-!
# Utf8 — bytes that are text, and eight of them at a time

* `decode` — the characters some bytes spell: no overlong form, no surrogate, nothing beyond
  Unicode.
* **`decode_eq_some_iff`** — bytes spell some characters when they are the bytes of each, one after
  the other.
* **`plainEight_iff`** — the test that tells, from eight bytes in one word, that each is ASCII and
  none a control character: one mask for the high bits, one subtraction for the rest.
-/

namespace Utf8

abbrev Bytes := List UInt8

/-! ## Decoding -/

/-- From the first byte of several: how many follow, its own bits, and the smallest code that
needs so many. -/
def lead (c : UInt8) : Option (Nat × UInt32 × UInt32) :=
  if c &&& 0xE0 = 0xC0 then some (1, (c &&& 0x1F).toUInt32, 0x80)
  else if c &&& 0xF0 = 0xE0 then some (2, (c &&& 0x0F).toUInt32, 0x800)
  else if c &&& 0xF8 = 0xF0 then some (3, (c &&& 0x07).toUInt32, 0x10000)
  else none

def continuation : Nat → UInt32 → Bytes → Option (UInt32 × Bytes)
  | 0, code, bs => some (code, bs)
  | n + 1, code, b :: bs =>
    if b &&& 0xC0 = 0x80 then continuation n ((code <<< 6) ||| (b &&& 0x3F).toUInt32) bs else none
  | _ + 1, _, [] => none

/-- A character of several bytes. -/
def decodeMany (c : UInt8) (rest : Bytes) : Option (Char × Bytes) :=
  (lead c).bind fun l => (continuation l.1 l.2.1 rest).bind fun r =>
    if r.1 < l.2.2 ∨ r.1 > 0x10FFFF ∨ (0xD800 ≤ r.1 ∧ r.1 ≤ 0xDFFF) then none
    else some (Char.ofNat r.1.toNat, r.2)

def decodeChar : Bytes → Option (Char × Bytes)
  | [] => none
  | c :: rest => if c < 0x80 then some (Char.ofNat c.toNat, rest) else decodeMany c rest

theorem continuation_length {n : Nat} {code code' : UInt32} {bs rest : Bytes}
    (h : continuation n code bs = some (code', rest)) : rest.length ≤ bs.length := by
  induction n generalizing code bs with
  | zero =>
    obtain ⟨-, rfl⟩ := Prod.mk.inj (Option.some.inj h)
    exact Nat.le_refl _
  | succ n ih =>
    cases bs with
    | nil => cases h
    | cons b bs =>
      simp only [continuation] at h
      split at h
      · exact Nat.le_succ_of_le (ih h)
      · cases h

theorem decodeMany_length {c : UInt8} {rest rest' : Bytes} {ch : Char}
    (h : decodeMany c rest = some (ch, rest')) : rest'.length ≤ rest.length := by
  obtain ⟨l, -, hl⟩ := Option.bind_eq_some_iff.1 h
  obtain ⟨⟨code, r⟩, hr, hcode⟩ := Option.bind_eq_some_iff.1 hl
  simp only at hcode
  split at hcode
  · cases hcode
  · obtain ⟨-, rfl⟩ := Prod.mk.inj (Option.some.inj hcode)
    exact continuation_length hr

theorem decodeChar_length {bs rest : Bytes} {ch : Char} (h : decodeChar bs = some (ch, rest)) :
    rest.length < bs.length := by
  cases bs with
  | nil => cases h
  | cons c bs =>
    simp only [decodeChar] at h
    split at h
    · obtain ⟨-, rfl⟩ := Prod.mk.inj (Option.some.inj h)
      exact Nat.lt_succ_self _
    · exact Nat.lt_succ_of_le (decodeMany_length h)

/-- The text some bytes are, if they are one. -/
def decode (bs : Bytes) : Option (List Char) :=
  if bs = [] then some []
  else match _h : decodeChar bs with
    | none => none
    | some (c, rest) => (decode rest).map (c :: ·)
termination_by bs.length
decreasing_by exact decodeChar_length _h

theorem decode_nil : decode [] = some [] := by
  rw [decode, if_pos rfl]

theorem decode_cons {bs rest : Bytes} {c : Char} (h : decodeChar bs = some (c, rest)) :
    decode bs = (decode rest).map (c :: ·) := by
  have hne : bs ≠ [] := by
    rintro rfl
    cases h
  rw [decode, if_neg hne]
  split <;> simp_all

/-- Whether bytes are text, told by recursion on a number as big as they are many. -/
def isTextWithin : Nat → Bytes → Bool
  | _, [] => true
  | 0, _ :: _ => false
  | n + 1, b :: bs =>
    match decodeChar (b :: bs) with
    | some (_, rest) => isTextWithin n rest
    | none => false

def isText (bs : Bytes) : Bool := isTextWithin bs.length bs

theorem isTextWithin_eq {n : Nat} {bs : Bytes} (h : bs.length ≤ n) :
    isTextWithin n bs = (decode bs).isSome := by
  induction n generalizing bs with
  | zero =>
    obtain rfl := List.length_eq_zero_iff.mp (Nat.le_zero.mp h)
    rw [decode_nil]
    rfl
  | succ n ih =>
    cases bs with
    | nil =>
      rw [decode_nil]
      rfl
    | cons b bs =>
      rw [isTextWithin]
      split
      · next c rest hchar =>
        have hshorter := decodeChar_length hchar
        rw [ih (by omega), decode_cons hchar, Option.isSome_map]
      · next hchar =>
        rw [decode, if_neg (List.cons_ne_nil b bs)]
        split <;> simp_all

theorem isText_eq (bs : Bytes) : isText bs = (decode bs).isSome :=
  isTextWithin_eq (Nat.le_refl _)

theorem decode_ascii {cs : List Char} (h : ∀ c ∈ cs, c.toNat < 0x80) :
    decode (cs.map fun c => c.toNat.toUInt8) = some cs := by
  induction cs with
  | nil => exact decode_nil
  | cons c cs ih =>
    have hc := h c (List.mem_cons_self ..)
    have hbyte : (c.toNat.toUInt8).toNat = c.toNat :=
      UInt8.toNat_ofNat_of_lt' (Nat.lt_trans hc (by decide))
    have hlow : c.toNat.toUInt8 < 0x80 := by
      show c.toNat.toUInt8.toNat < 0x80
      rw [hbyte]
      exact hc
    have hchar : decodeChar ((c :: cs).map fun c => c.toNat.toUInt8) =
        some (c, cs.map fun c => c.toNat.toUInt8) := by
      simp only [List.map_cons, decodeChar, hlow, if_true, hbyte, Char.ofNat_toNat]
    rw [List.map_cons] at hchar ⊢
    rw [decode_cons hchar, ih fun c hc => h c (List.mem_cons_of_mem _ hc)]
    rfl

theorem utf8EncodeChar_ascii {c : Char} (h : c.toNat < 128) :
    String.utf8EncodeChar c = [c.toNat.toUInt8] := by
  have hle : c.val.toNat ≤ 127 := Nat.le_of_lt_succ h
  rw [String.utf8EncodeChar, if_pos hle]
  rfl

/-- The bytes of a character that is not ASCII are not either. -/
theorem le_of_mem_utf8EncodeChar {c : Char} (h : 128 ≤ c.toNat) :
    ∀ b ∈ String.utf8EncodeChar c, 128 ≤ b.toNat := by
  have hgt : ¬ c.val.toNat ≤ 127 := Nat.not_le_of_lt h
  intro b hb
  rw [String.utf8EncodeChar, if_neg hgt] at hb
  split at hb
  all_goals try split at hb
  all_goals
    simp only [List.mem_cons, List.not_mem_nil, or_false] at hb
    rcases hb with rfl | rfl | rfl | rfl <;> rw [UInt8.toNat_ofNat'] <;> omega

/-- A character of several bytes is not ASCII. -/
theorem decodeMany_not_ascii {c : UInt8} {rest rest' : Bytes} {ch : Char}
    (h : decodeMany c rest = some (ch, rest')) : 0x80 ≤ ch.toNat := by
  obtain ⟨l, hl, hr⟩ := Option.bind_eq_some_iff.1 h
  obtain ⟨⟨code, r⟩, -, hcode⟩ := Option.bind_eq_some_iff.1 hr
  have hsmallest : 0x80 ≤ l.2.2.toNat := by
    unfold lead at hl
    split at hl
    · obtain rfl := Option.some.inj hl
      show 0x80 ≤ (0x80 : UInt32).toNat
      decide
    · split at hl
      · obtain rfl := Option.some.inj hl
        show 0x80 ≤ (0x800 : UInt32).toNat
        decide
      · split at hl
        · obtain rfl := Option.some.inj hl
          show 0x80 ≤ (0x10000 : UInt32).toNat
          decide
        · cases hl
  simp only at hcode
  split at hcode
  · cases hcode
  · next hvalid =>
    obtain ⟨rfl, -⟩ := Prod.mk.inj (Option.some.inj hcode)
    simp only [UInt32.lt_iff_toNat_lt, UInt32.le_iff_toNat_le, gt_iff_lt, not_or, not_and,
      Nat.not_lt, Nat.not_le] at hvalid
    have h1 : (0x10FFFF : UInt32).toNat = 0x10FFFF := rfl
    have h2 : (0xD800 : UInt32).toNat = 0xD800 := rfl
    have h3 : (0xDFFF : UInt32).toNat = 0xDFFF := rfl
    have hscalar : code.toNat.isValidChar := by
      unfold Nat.isValidChar
      omega
    rw [Char.ofNat, dif_pos hscalar]
    show 0x80 ≤ code.toNat
    omega

theorem continuation_local {n : Nat} {code code' : UInt32} {bs rest : Bytes}
    (h : continuation n code bs = some (code', rest)) :
    ∃ w, bs = w ++ rest ∧ ∀ more, continuation n code (w ++ more) = some (code', more) := by
  induction n generalizing code bs with
  | zero =>
    obtain ⟨rfl, rfl⟩ := Prod.mk.inj (Option.some.inj h)
    exact ⟨[], rfl, fun _ => rfl⟩
  | succ n ih =>
    cases bs with
    | nil => cases h
    | cons b bs =>
      simp only [continuation] at h
      split at h
      · rename_i hb
        obtain ⟨w, rfl, hw⟩ := ih h
        refine ⟨b :: w, rfl, fun more => ?_⟩
        rw [List.cons_append, continuation, if_pos hb, hw]
      · cases h

/-- The bytes of a character spell it whatever follows them. -/
theorem decodeChar_local {bs rest : Bytes} {ch : Char} (h : decodeChar bs = some (ch, rest)) :
    ∃ w, bs = w ++ rest ∧ ∀ more, decodeChar (w ++ more) = some (ch, more) := by
  cases bs with
  | nil => cases h
  | cons c bs =>
    simp only [decodeChar] at h
    split at h
    · rename_i hc
      obtain ⟨rfl, rfl⟩ := Prod.mk.inj (Option.some.inj h)
      exact ⟨[c], rfl, fun more => if_pos hc⟩
    · rename_i hc
      obtain ⟨l, hl, hr⟩ := Option.bind_eq_some_iff.1 h
      obtain ⟨⟨code, r⟩, hcont, hcode⟩ := Option.bind_eq_some_iff.1 hr
      obtain ⟨w, rfl, hw⟩ := continuation_local hcont
      simp only at hcode
      split at hcode
      · cases hcode
      · rename_i hvalid
        obtain ⟨rfl, rfl⟩ := Prod.mk.inj (Option.some.inj hcode)
        refine ⟨c :: w, rfl, fun more => ?_⟩
        rw [List.cons_append, decodeChar, if_neg hc, decodeMany, hl, Option.bind_some, hw,
          Option.bind_some, if_neg hvalid]

/-! ## The bytes of a character -/

def isContinuation (b : UInt8) : Bool := b &&& 0xC0 = 0x80

/-- What the next byte of a character adds to its code. -/
def extend (code : UInt32) (b : UInt8) : UInt32 := (code <<< 6) ||| (b &&& 0x3F).toUInt32

theorem continuation_eq (n : Nat) (code : UInt32) (bs : Bytes) :
    continuation n code bs = if n ≤ bs.length ∧ (bs.take n).all isContinuation = true then
      some ((bs.take n).foldl extend code, bs.drop n) else none := by
  induction n generalizing code bs with
  | zero => simp [continuation]
  | succ n ih =>
    cases bs with
    | nil => simp [continuation]
    | cons b bs =>
      rw [continuation, ih]
      by_cases hb : b &&& 0xC0 = 0x80
      · simp [hb, isContinuation, extend]
      · simp [hb, isContinuation]

theorem forall_byte {p : UInt8 → Prop} (h : ∀ n : Fin 256, p (UInt8.ofFin n)) (b : UInt8) : p b :=
  UInt8.ofFin_toFin b ▸ h b.toFin

theorem isContinuation_iff (b : UInt8) : isContinuation b = true ↔ 0x80 ≤ b.toNat ∧ b.toNat < 0xC0 :=
  forall_byte (p := fun b => isContinuation b = true ↔ 0x80 ≤ b.toNat ∧ b.toNat < 0xC0)
    (by decide +kernel) b

theorem lead_eq (c : UInt8) : lead c =
    if c.toNat < 0xC0 then none
    else if c.toNat < 0xE0 then some (1, UInt32.ofNat (c.toNat - 0xC0), 0x80)
    else if c.toNat < 0xF0 then some (2, UInt32.ofNat (c.toNat - 0xE0), 0x800)
    else if c.toNat < 0xF8 then some (3, UInt32.ofNat (c.toNat - 0xF0), 0x10000)
    else none :=
  forall_byte (p := fun c => lead c = if c.toNat < 0xC0 then none
    else if c.toNat < 0xE0 then some (1, UInt32.ofNat (c.toNat - 0xC0), 0x80)
    else if c.toNat < 0xF0 then some (2, UInt32.ofNat (c.toNat - 0xE0), 0x800)
    else if c.toNat < 0xF8 then some (3, UInt32.ofNat (c.toNat - 0xF0), 0x10000)
    else none) (by decide +kernel) c

theorem extend_toNat {code : UInt32} (h : code.toNat < 2 ^ 26) (b : UInt8) :
    (extend code b).toNat = code.toNat * 64 + b.toNat % 64 := by
  have hb : b.toNat &&& 63 = b.toNat % 64 := Nat.and_two_pow_sub_one_eq_mod b.toNat 6
  have hlt : b.toNat % 64 < 2 ^ 6 := Nat.mod_lt _ (by decide)
  have hcode : code.toNat <<< 6 < 2 ^ 32 := by
    rw [Nat.shiftLeft_eq]
    omega
  have hnat : (extend code b).toNat = (code.toNat <<< 6 % 2 ^ 32) ||| (b.toNat &&& 63) := rfl
  rw [hnat, Nat.mod_eq_of_lt hcode, hb, ← Nat.shiftLeft_add_eq_or_of_lt hlt, Nat.shiftLeft_eq]

/-- The code some continuation bytes end. -/
def code (first : Nat) (bs : Bytes) : Nat := bs.foldl (fun v b => v * 64 + b.toNat % 64) first

theorem foldl_extend_toNat {first : UInt32} {bs : Bytes}
    (h : (first.toNat + 1) * 64 ^ bs.length ≤ 2 ^ 32) :
    (bs.foldl extend first).toNat = code first.toNat bs := by
  induction bs generalizing first with
  | nil => rfl
  | cons b bs ih =>
    have hpos : 1 ≤ 64 ^ bs.length := Nat.one_le_pow _ _ (by decide)
    rw [List.length_cons, Nat.pow_succ, Nat.mul_comm _ 64, ← Nat.mul_assoc] at h
    have hfirst : (first.toNat + 1) * 64 ≤ 2 ^ 32 := Nat.le_trans (Nat.le_mul_of_pos_right _ hpos) h
    have hnext := extend_toNat (show first.toNat < 2 ^ 26 by omega) b
    have hb : b.toNat % 64 < 64 := Nat.mod_lt _ (by decide)
    rw [List.foldl_cons, ih, hnext]
    · rfl
    · rw [hnext]
      exact Nat.le_trans (Nat.mul_le_mul_right _ (by omega)) h

/-- A character of several bytes, with its code. -/
theorem decodeMany_code {c : UInt8} {n first smallest : Nat} (rest : Bytes)
    (hlead : lead c = some (n, UInt32.ofNat first, UInt32.ofNat smallest))
    (hfirst : (first + 1) * 64 ^ n ≤ 2 ^ 32) (hsmallest : smallest < 2 ^ 32) :
    decodeMany c rest =
      if (n ≤ rest.length ∧ (rest.take n).all isContinuation = true) ∧
        smallest ≤ code first (rest.take n) ∧ code first (rest.take n) ≤ 0x10FFFF ∧
        ¬ (0xD800 ≤ code first (rest.take n) ∧ code first (rest.take n) ≤ 0xDFFF)
      then some (Char.ofNat (code first (rest.take n)), rest.drop n) else none := by
  have hpos : 1 ≤ 64 ^ n := Nat.one_le_pow _ _ (by decide)
  have hfirst32 : first < 2 ^ 32 := Nat.le_trans (Nat.le_mul_of_pos_right _ hpos) hfirst
  have hnat : (UInt32.ofNat first).toNat = first := Nat.mod_eq_of_lt hfirst32
  have hsnat : (UInt32.ofNat smallest).toNat = smallest := Nat.mod_eq_of_lt hsmallest
  rw [decodeMany, hlead, Option.bind_some, continuation_eq]
  by_cases hseq : n ≤ rest.length ∧ (rest.take n).all isContinuation = true
  · have hcode : ((rest.take n).foldl extend (UInt32.ofNat first)).toNat =
        code first (rest.take n) := by
      have hroom : ((UInt32.ofNat first).toNat + 1) * 64 ^ (rest.take n).length ≤ 2 ^ 32 := by
        rw [hnat, List.length_take, Nat.min_eq_left hseq.1]
        exact hfirst
      have h := foldl_extend_toNat hroom
      rwa [hnat] at h
    rw [if_pos hseq, Option.bind_some]
    simp only [UInt32.lt_iff_toNat_lt, UInt32.le_iff_toNat_le, gt_iff_lt, hcode, hsnat, hseq,
      and_self, true_and]
    have h1 : (0x10FFFF : UInt32).toNat = 0x10FFFF := rfl
    have h2 : (0xD800 : UInt32).toNat = 0xD800 := rfl
    have h3 : (0xDFFF : UInt32).toNat = 0xDFFF := rfl
    rw [h1, h2, h3]
    split
    · rw [if_neg (by omega)]
    · rw [if_pos (by omega)]
  · rw [if_neg hseq, if_neg fun h => hseq h.1]
    rfl

/-- A character of several bytes, by its code. -/
theorem decodeMany_eq {c : UInt8} {n first smallest : Nat} (rest : Bytes)
    (hlead : lead c = some (n, UInt32.ofNat first, UInt32.ofNat smallest))
    (hfirst : (first + 1) * 64 ^ n ≤ 2 ^ 32) (hsmallest : smallest < 2 ^ 32) :
    (decodeMany c rest).map Prod.snd =
      if (n ≤ rest.length ∧ (rest.take n).all isContinuation = true) ∧
        smallest ≤ code first (rest.take n) ∧ code first (rest.take n) ≤ 0x10FFFF ∧
        ¬ (0xD800 ≤ code first (rest.take n) ∧ code first (rest.take n) ≤ 0xDFFF)
      then some (rest.drop n) else none := by
  rw [decodeMany_code rest hlead hfirst hsmallest]
  split
  · rfl
  · rfl

/-! ## A character, written and read -/

theorem toNat_ofNat {x : Nat} (h : x < 256) : (UInt8.ofNat x).toNat = x :=
  UInt8.toNat_ofNat_of_lt' h

/-- The bytes behind the first, six bits each. -/
theorem all_isContinuation {xs : List Nat} (h : ∀ x ∈ xs, x < 64) :
    (xs.map fun x => UInt8.ofNat (x + 0x80)).all isContinuation = true := by
  simp only [List.all_map, List.all_eq_true, Function.comp_apply, isContinuation_iff]
  intro x hx
  have hlt := h x hx
  rw [toNat_ofNat (by omega)]
  omega

theorem code_map {first : Nat} {xs : List Nat} (h : ∀ x ∈ xs, x < 64) :
    code first (xs.map fun x => UInt8.ofNat (x + 0x80)) = xs.foldl (fun v x => v * 64 + x) first := by
  induction xs generalizing first with
  | nil => rfl
  | cons x xs ih =>
    have hx := h x (List.mem_cons_self ..)
    have hbyte : (UInt8.ofNat (x + 0x80)).toNat % 64 = x := by
      rw [toNat_ofNat (by omega)]
      omega
    have htail : code (first * 64 + x) (xs.map fun x => UInt8.ofNat (x + 0x80)) =
        xs.foldl (fun v x => v * 64 + x) (first * 64 + x) := ih fun y hy => h y (List.mem_cons_of_mem _ hy)
    rw [code] at htail
    rw [List.map_cons, code, List.foldl_cons, List.foldl_cons, hbyte, htail]

/-- What the code of a character is not. -/
def Scalar (v : Nat) : Prop := v ≤ 0x10FFFF ∧ ¬ (0xD800 ≤ v ∧ v ≤ 0xDFFF)

theorem scalar_val (c : Char) : Scalar c.val.toNat := by
  have hvalid : c.val.toNat < 0xD800 ∨ 0xDFFF < c.val.toNat ∧ c.val.toNat < 0x110000 := c.valid
  unfold Scalar
  omega

theorem decodeChar_many {c : UInt8} {n first smallest v : Nat} {xs : List Nat} (rest : Bytes)
    (hlead : lead c = some (n, UInt32.ofNat first, UInt32.ofNat smallest))
    (hfirst : (first + 1) * 64 ^ n ≤ 2 ^ 32) (hsmallest : smallest < 2 ^ 32) (hlen : xs.length = n)
    (hxs : ∀ x ∈ xs, x < 64) (hcode : xs.foldl (fun v x => v * 64 + x) first = v)
    (hle : smallest ≤ v) (hv : Scalar v) :
    decodeChar (c :: (xs.map fun x => UInt8.ofNat (x + 0x80)) ++ rest) = some (Char.ofNat v, rest) := by
  have hhigh : ¬ c < 0x80 := by
    intro hlow
    have hlt : c.toNat < 0xC0 := Nat.lt_trans (show c.toNat < 0x80 from hlow) (by decide)
    rw [lead_eq, if_pos hlt] at hlead
    cases hlead
  have htail : (xs.map fun x => UInt8.ofNat (x + 0x80)).length = n := by rw [List.length_map, hlen]
  rw [List.cons_append, decodeChar, if_neg hhigh, decodeMany_code _ hlead hfirst hsmallest,
    List.take_left' htail, List.drop_left' htail, code_map hxs, hcode, if_pos]
  refine ⟨⟨?_, all_isContinuation hxs⟩, hle, hv⟩
  rw [List.length_append, htail]
  exact Nat.le_add_right _ _

/-- A character is read from its bytes. -/
theorem decodeChar_utf8EncodeChar (c : Char) (rest : Bytes) :
    decodeChar (String.utf8EncodeChar c ++ rest) = some (c, rest) := by
  have hscalar := scalar_val c
  have hc : Char.ofNat c.val.toNat = c := Char.ofNat_toNat c
  rw [String.utf8EncodeChar]
  generalize c.val.toNat = v at hscalar hc
  have hmax := hscalar.1
  by_cases h1 : v ≤ 0x7F
  · have hlow : UInt8.ofNat v < 0x80 := by
      rw [UInt8.lt_iff_toNat_lt, toNat_ofNat (by omega)]
      exact Nat.lt_succ_of_le h1
    rw [if_pos h1, List.singleton_append, decodeChar, if_pos hlow, toNat_ofNat (by omega), hc]
  · rw [if_neg h1]
    by_cases h2 : v ≤ 0x7FF
    · rw [if_pos h2]
      have hlead : lead (UInt8.ofNat (v / 64 % 0x20 + 0xC0)) =
          some (1, UInt32.ofNat (v / 64), UInt32.ofNat 0x80) := by
        rw [lead_eq, toNat_ofNat (by omega), if_neg (by omega), if_pos (by omega),
          show v / 64 % 0x20 + 0xC0 - 0xC0 = v / 64 by omega]
        rfl
      have hcode : [v % 0x40].foldl (fun v x => v * 64 + x) (v / 64) = v := by
        show v / 64 * 64 + v % 0x40 = v
        omega
      have hsix : ∀ x ∈ [v % 0x40], x < 64 := by
        simp only [List.mem_singleton, forall_eq]
        omega
      have hread := decodeChar_many rest hlead (by omega) (by decide) rfl hsix hcode (by omega) hscalar
      rwa [hc] at hread
    · rw [if_neg h2]
      by_cases h3 : v ≤ 0xFFFF
      · rw [if_pos h3]
        have hlead : lead (UInt8.ofNat (v / 4096 % 0x10 + 0xE0)) =
            some (2, UInt32.ofNat (v / 4096), UInt32.ofNat 0x800) := by
          rw [lead_eq, toNat_ofNat (by omega), if_neg (by omega), if_neg (by omega), if_pos (by omega),
            show v / 4096 % 0x10 + 0xE0 - 0xE0 = v / 4096 by omega]
          rfl
        have hcode : [v / 64 % 0x40, v % 0x40].foldl (fun v x => v * 64 + x) (v / 4096) = v := by
          show (v / 4096 * 64 + v / 64 % 0x40) * 64 + v % 0x40 = v
          omega
        have hsix : ∀ x ∈ [v / 64 % 0x40, v % 0x40], x < 64 := by
          simp only [List.mem_cons, List.not_mem_nil, or_false, forall_eq_or_imp, forall_eq]
          omega
        have hread := decodeChar_many rest hlead (by omega) (by decide) rfl hsix hcode (by omega) hscalar
        rwa [hc] at hread
      · rw [if_neg h3]
        have hlead : lead (UInt8.ofNat (v / 262144 % 0x08 + 0xF0)) =
            some (3, UInt32.ofNat (v / 262144), UInt32.ofNat 0x10000) := by
          rw [lead_eq, toNat_ofNat (by omega), if_neg (by omega), if_neg (by omega), if_neg (by omega),
            if_pos (by omega), show v / 262144 % 0x08 + 0xF0 - 0xF0 = v / 262144 by omega]
          rfl
        have hcode : [v / 4096 % 0x40, v / 64 % 0x40, v % 0x40].foldl (fun v x => v * 64 + x)
            (v / 262144) = v := by
          show ((v / 262144 * 64 + v / 4096 % 0x40) * 64 + v / 64 % 0x40) * 64 + v % 0x40 = v
          omega
        have hsix : ∀ x ∈ [v / 4096 % 0x40, v / 64 % 0x40, v % 0x40], x < 64 := by
          simp only [List.mem_cons, List.not_mem_nil, or_false, forall_eq_or_imp, forall_eq]
          omega
        have hread := decodeChar_many rest hlead (by omega) (by decide) rfl hsix hcode (by omega) hscalar
        rwa [hc] at hread

/-- One byte of a character, by its value. -/
theorem ofNat_eq {b : UInt8} {x : Nat} (h : x = b.toNat) : UInt8.ofNat x = b := by
  rw [h, UInt8.ofNat_toNat]

theorem ofNat_val {v : Nat} (h : Scalar v) : (Char.ofNat v).val.toNat = v := by
  have hvalid : v.isValidChar := by
    unfold Nat.isValidChar
    unfold Scalar at h
    omega
  rw [Char.ofNat, dif_pos hvalid]
  rfl

/-- What a character of several bytes was read from. -/
theorem decodeMany_inv {c : UInt8} {n first smallest : Nat} {rest rest' : Bytes} {ch : Char}
    (h : decodeMany c rest = some (ch, rest'))
    (hlead : lead c = some (n, UInt32.ofNat first, UInt32.ofNat smallest))
    (hfirst : (first + 1) * 64 ^ n ≤ 2 ^ 32) (hsmallest : smallest < 2 ^ 32) :
    ∃ w, w.length = n ∧ (∀ b ∈ w, 0x80 ≤ b.toNat ∧ b.toNat < 0xC0) ∧ rest = w ++ rest' ∧
      smallest ≤ code first w ∧ Scalar (code first w) ∧ ch = Char.ofNat (code first w) := by
  rw [decodeMany_code rest hlead hfirst hsmallest] at h
  split at h
  · next hvalid =>
    obtain ⟨hch, hrest⟩ := Prod.mk.inj (Option.some.inj h)
    refine ⟨rest.take n, ?_, ?_, ?_, hvalid.2.1, hvalid.2.2, hch.symm⟩
    · rw [List.length_take, Nat.min_eq_left hvalid.1.1]
    · intro b hb
      exact (isContinuation_iff b).1 (List.all_eq_true.1 hvalid.1.2 b hb)
    · rw [← hrest, List.take_append_drop]
  · cases h

theorem utf8EncodeChar_decodeMany {c : UInt8} {rest rest' : Bytes} {ch : Char}
    (h : decodeMany c rest = some (ch, rest')) : c :: rest = String.utf8EncodeChar ch ++ rest' := by
  have hb := c.toNat_lt
  have hlead := lead_eq c
  split at hlead
  · rw [decodeMany, hlead] at h
    cases h
  split at hlead
  · obtain ⟨w, hlen, hw, rfl, hle, hv, rfl⟩ := decodeMany_inv h hlead (by omega) (by decide)
    obtain ⟨b₁, rfl⟩ := List.length_eq_one_iff.1 hlen
    simp only [List.mem_singleton, forall_eq] at hw
    replace hle : 0x80 ≤ code (c.toNat - 0xC0) [b₁] := hle
    have hcode : code (c.toNat - 0xC0) [b₁] = (c.toNat - 0xC0) * 64 + b₁.toNat % 64 := rfl
    rw [String.utf8EncodeChar, ofNat_val hv]
    rw [hcode] at hle ⊢
    rw [if_neg (by omega), if_pos (by omega), ofNat_eq (b := c) (by omega),
      ofNat_eq (b := b₁) (by omega)]
    rfl
  split at hlead
  · obtain ⟨w, hlen, hw, rfl, hle, hv, rfl⟩ := decodeMany_inv h hlead (by omega) (by decide)
    obtain ⟨b₁, b₂, rfl⟩ := List.length_eq_two.1 hlen
    simp only [List.mem_cons, List.not_mem_nil, or_false, forall_eq_or_imp, forall_eq] at hw
    replace hle : 0x800 ≤ code (c.toNat - 0xE0) [b₁, b₂] := hle
    have hcode : code (c.toNat - 0xE0) [b₁, b₂] =
        ((c.toNat - 0xE0) * 64 + b₁.toNat % 64) * 64 + b₂.toNat % 64 := rfl
    rw [String.utf8EncodeChar, ofNat_val hv]
    rw [hcode] at hle ⊢
    rw [if_neg (by omega), if_neg (by omega), if_pos (by omega), ofNat_eq (b := c) (by omega),
      ofNat_eq (b := b₁) (by omega), ofNat_eq (b := b₂) (by omega)]
    rfl
  split at hlead
  · obtain ⟨w, hlen, hw, rfl, hle, hv, rfl⟩ := decodeMany_inv h hlead (by omega) (by decide)
    obtain ⟨b₁, b₂, b₃, rfl⟩ := List.length_eq_three.1 hlen
    simp only [List.mem_cons, List.not_mem_nil, or_false, forall_eq_or_imp, forall_eq] at hw
    replace hle : 0x10000 ≤ code (c.toNat - 0xF0) [b₁, b₂, b₃] := hle
    have hcode : code (c.toNat - 0xF0) [b₁, b₂, b₃] =
        (((c.toNat - 0xF0) * 64 + b₁.toNat % 64) * 64 + b₂.toNat % 64) * 64 + b₃.toNat % 64 := rfl
    have hmax := hv.1
    rw [String.utf8EncodeChar, ofNat_val hv]
    rw [hcode] at hle hmax ⊢
    rw [if_neg (by omega), if_neg (by omega), if_neg (by omega), ofNat_eq (b := c) (by omega),
      ofNat_eq (b := b₁) (by omega), ofNat_eq (b := b₂) (by omega), ofNat_eq (b := b₃) (by omega)]
    rfl
  · rw [decodeMany, hlead] at h
    cases h

theorem decodeChar_eq_some_iff {bs rest : Bytes} {c : Char} :
    decodeChar bs = some (c, rest) ↔ bs = String.utf8EncodeChar c ++ rest := by
  constructor
  · intro h
    cases bs with
    | nil => cases h
    | cons b bs =>
      simp only [decodeChar] at h
      split at h
      · next hlow =>
        obtain ⟨rfl, rfl⟩ := Prod.mk.inj (Option.some.inj h)
        have hlt : b.toNat < 0x80 := hlow
        have hval : (Char.ofNat b.toNat).val.toNat = b.toNat := ofNat_val ⟨by omega, by omega⟩
        rw [String.utf8EncodeChar, hval, if_pos (by omega), UInt8.ofNat_toNat]
        rfl
      · exact utf8EncodeChar_decodeMany h
  · rintro rfl
    exact decodeChar_utf8EncodeChar c rest

/-- **Bytes are text** when they are the bytes of its characters, one after the other. -/
theorem decode_eq_some_iff {bs : Bytes} {cs : List Char} :
    decode bs = some cs ↔ bs = cs.flatMap String.utf8EncodeChar := by
  induction cs generalizing bs with
  | nil =>
    constructor
    · intro h
      cases bs with
      | nil => rfl
      | cons b bs =>
        rw [decode, if_neg (List.cons_ne_nil b bs)] at h
        split at h
        · cases h
        · obtain ⟨_, -, hcons⟩ := Option.map_eq_some_iff.1 h
          cases hcons
    · rintro rfl
      exact decode_nil
  | cons c cs ih =>
    rw [List.flatMap_cons]
    constructor
    · intro h
      have hne : bs ≠ [] := by
        rintro rfl
        rw [decode_nil] at h
        cases h
      rw [decode, if_neg hne] at h
      split at h
      · cases h
      · next c' rest hchar =>
        obtain ⟨cs', hrest, hcons⟩ := Option.map_eq_some_iff.1 h
        obtain ⟨rfl, rfl⟩ := List.cons.inj hcons
        rw [← ih.1 hrest]
        exact decodeChar_eq_some_iff.1 hchar
    · rintro rfl
      rw [decode_cons (decodeChar_utf8EncodeChar c _), ih.2 rfl]
      rfl

/-! ## Eight bytes at a time -/

/-- Bytes as one number, the first of them lowest. -/
def word : Bytes → Nat
  | [] => 0
  | b :: bs => b.toNat + 256 * word bs

/-- Whether each of eight bytes is at least `0x20` and below `0x80`. -/
def plainEight (v : UInt64) : Bool :=
  (v &&& 0x8080808080808080) == 0 &&
    ((v - 0x2020202020202020) &&& ~~~v &&& 0x8080808080808080) == 0

theorem word_lt (bs : Bytes) : word bs < 256 ^ bs.length := by
  induction bs with
  | nil => decide
  | cons b bs ih =>
    have hb := b.toNat_lt
    simp only [word, List.length_cons, Nat.pow_succ]
    omega

theorem testBit_word_cons (a x j : Nat) (ha : a < 256) :
    (a + 256 * x).testBit j = if j < 8 then a.testBit j else x.testBit (j - 8) := by
  have h := Nat.testBit_two_pow_mul_add x (i := 8) ha j
  rw [show 2 ^ 8 * x + a = a + 256 * x from by omega] at h
  exact h

/-- The high bit of each byte. -/
def HighBitsClear (n x : Nat) : Prop :=
  ∀ i < n, x.testBit (8 * i + 7) = false

theorem highBitsClear_cons {n a x : Nat} (ha : a < 256) :
    HighBitsClear (n + 1) (a + 256 * x) ↔ a < 128 ∧ HighBitsClear n x := by
  have hlow : (a + 256 * x).testBit 7 = a.testBit 7 := by
    rw [testBit_word_cons a x 7 ha, if_pos (by decide)]
  have hbit : a.testBit 7 = false ↔ a < 128 := by
    rw [Nat.testBit_eq_decide_div_mod_eq]
    simp only [decide_eq_false_iff_not]
    omega
  constructor
  · intro h
    refine ⟨hbit.1 (hlow ▸ h 0 (Nat.succ_pos n)), fun i hi => ?_⟩
    have hi' := h (i + 1) (Nat.succ_lt_succ hi)
    rw [testBit_word_cons a x _ ha, if_neg (by omega)] at hi'
    rwa [show 8 * (i + 1) + 7 - 8 = 8 * i + 7 from by omega] at hi'
  · rintro ⟨ha', h⟩ i hi
    cases i with
    | zero => exact hlow.trans (hbit.2 ha')
    | succ i =>
      rw [testBit_word_cons a x _ ha, if_neg (by omega),
        show 8 * (i + 1) + 7 - 8 = 8 * i + 7 from by omega]
      exact h i (Nat.lt_of_succ_lt_succ hi)

theorem highBitsClear_word (bs : Bytes) :
    HighBitsClear bs.length (word bs) ↔ ∀ b ∈ bs, b.toNat < 128 := by
  induction bs with
  | nil => simp [HighBitsClear]
  | cons b bs ih =>
    rw [List.length_cons, word, highBitsClear_cons b.toNat_lt, ih]
    simp

/-- **One subtraction for all bytes.** Up to the first byte below `0x20` there is no borrow, and
that byte borrows: its high bit is set. -/
theorem highBitsClear_sub {bs : Bytes} (hbs : ∀ b ∈ bs, b.toNat < 128) :
    HighBitsClear bs.length ((word bs + 256 ^ bs.length - word (List.replicate bs.length 0x20)) %
      256 ^ bs.length) ↔ ∀ b ∈ bs, 0x20 ≤ b.toNat := by
  induction bs with
  | nil => simp [HighBitsClear]
  | cons b bs ih =>
    have hb := hbs b (List.mem_cons_self ..)
    have hlt := word_lt (List.replicate bs.length 0x20)
    rw [List.length_replicate] at hlt
    specialize ih fun c hc => hbs c (List.mem_cons_of_mem _ hc)
    rw [List.length_cons, List.replicate_succ, word, word, Nat.pow_succ,
      Nat.mul_comm (256 ^ bs.length) 256, show (0x20 : UInt8).toNat = 0x20 from rfl]
    generalize word (List.replicate bs.length 0x20) = k at ih hlt ⊢
    generalize 256 ^ bs.length = p at ih hlt ⊢
    by_cases hborrow : 0x20 ≤ b.toNat
    · have hsub : (b.toNat + 256 * word bs + 256 * p - (0x20 + 256 * k)) % (256 * p) =
          (b.toNat - 0x20) + 256 * ((word bs + p - k) % p) := by
        rw [Nat.mod_mul, show b.toNat + 256 * word bs + 256 * p - (0x20 + 256 * k) =
          (b.toNat - 0x20) + 256 * (word bs + p - k) from by omega]
        rw [Nat.add_mul_mod_self_left, Nat.mod_eq_of_lt (by omega),
          Nat.add_mul_div_left _ _ (by decide), Nat.div_eq_of_lt (by omega), Nat.zero_add]
      rw [hsub, highBitsClear_cons (by omega), ih]
      simp only [List.mem_cons, forall_eq_or_imp, hborrow, true_and, and_iff_right_iff_imp]
      omega
    · refine iff_of_false (fun h => ?_) fun h => hborrow (h b (List.mem_cons_self ..))
      have hsub : (b.toNat + 256 * word bs + 256 * p - (0x20 + 256 * k)) % (256 * p) =
          (b.toNat + 0xE0) + 256 * ((word bs + p - k - 1) % p) := by
        rw [Nat.mod_mul, show b.toNat + 256 * word bs + 256 * p - (0x20 + 256 * k) =
          (b.toNat + 0xE0) + 256 * (word bs + p - k - 1) from by omega]
        rw [Nat.add_mul_mod_self_left, Nat.mod_eq_of_lt (by omega),
          Nat.add_mul_div_left _ _ (by decide), Nat.div_eq_of_lt (by omega), Nat.zero_add]
      rw [hsub, highBitsClear_cons (by omega)] at h
      omega

theorem and_highBits (x : Nat) :
    x &&& 0x8080808080808080 = 0 ↔ HighBitsClear 8 x := by
  have hmask : ∀ i < 8, (0x8080808080808080 : Nat).testBit (8 * i + 7) = true := by decide
  have hother : ∀ j < 64, (∀ i < 8, j ≠ 8 * i + 7) → (0x8080808080808080 : Nat).testBit j = false := by
    decide
  constructor
  · intro h i hi
    have hbit := congrArg (Nat.testBit · (8 * i + 7)) h
    simpa [Nat.testBit_and, hmask i hi] using hbit
  · intro h
    apply Nat.eq_of_testBit_eq
    intro j
    rw [Nat.testBit_and, Nat.zero_testBit]
    by_cases hj : ∃ i, i < 8 ∧ j = 8 * i + 7
    · obtain ⟨i, hi, rfl⟩ := hj
      rw [h i hi, Bool.false_and]
    · have hoff : (0x8080808080808080 : Nat).testBit j = false := by
        by_cases hlt : j < 64
        · exact hother j hlt fun i hi heq => hj ⟨i, hi, heq⟩
        · exact Nat.testBit_lt_two_pow (Nat.lt_of_lt_of_le (by decide)
            (Nat.pow_le_pow_right (by decide) (Nat.not_lt.1 hlt)))
      rw [hoff, Bool.and_false]

/-- **Eight plain bytes**, seen in one word. -/
theorem plainEight_iff {bs : Bytes} (hlen : bs.length = 8) :
    plainEight (UInt64.ofNat (word bs)) = true ↔ ∀ b ∈ bs, 0x20 ≤ b.toNat ∧ b.toNat < 0x80 := by
  have hword := word_lt bs
  rw [hlen] at hword
  have hv : (UInt64.ofNat (word bs)).toNat = word bs := UInt64.toNat_ofNat_of_lt' hword
  have hhigh := highBitsClear_word bs
  rw [hlen] at hhigh
  generalize UInt64.ofNat (word bs) = v at hv
  have hfirst : (v &&& 0x8080808080808080) = 0 ↔ ∀ b ∈ bs, b.toNat < 128 := by
    rw [← hhigh, ← and_highBits, ← UInt64.toNat_inj, UInt64.toNat_and, hv]
    rfl
  unfold plainEight
  rw [Bool.and_eq_true, beq_iff_eq, beq_iff_eq, hfirst]
  by_cases hascii : ∀ b ∈ bs, b.toNat < 128
  · have hsub := highBitsClear_sub hascii
    rw [hlen] at hsub
    have hclear := hhigh.2 hascii
    -- below 0x80 every high bit of `~v` is set, and the mask sees those of the difference
    have hnot : ∀ i < 8, (~~~v).toNat.testBit (8 * i + 7) = true := by
      intro i hi
      have hsize : UInt64.size - 1 - word bs = 2 ^ 64 - (word bs + 1) := by
        unfold UInt64.size
        omega
      rw [UInt64.toNat_not, hv, hsize, Nat.testBit_two_pow_sub_succ hword, hclear i hi]
      simp only [Bool.not_false, Bool.and_true, decide_eq_true_eq]
      omega
    have hdiff : (v - 0x2020202020202020).toNat =
        (word bs + 256 ^ 8 - word (List.replicate 8 0x20)) % 256 ^ 8 := by
      have hspaces : word (List.replicate 8 0x20) = 0x2020202020202020 := rfl
      have hk : (0x2020202020202020 : UInt64).toNat = 0x2020202020202020 := rfl
      have hpow : (256 : Nat) ^ 8 = 2 ^ 64 := by decide
      have hswap : 2 ^ 64 - 0x2020202020202020 + word bs = word bs + 2 ^ 64 - 0x2020202020202020 := by
        omega
      rw [UInt64.toNat_sub, hv, hk, hspaces, hpow, hswap]
    have hsecond : (v - 0x2020202020202020 &&& ~~~v &&& 0x8080808080808080) = 0 ↔
        ∀ b ∈ bs, 0x20 ≤ b.toNat := by
      rw [← hsub, ← hdiff, ← UInt64.toNat_inj, UInt64.toNat_and, UInt64.toNat_and]
      show _ &&& 0x8080808080808080 = 0 ↔ _
      rw [and_highBits]
      refine forall_congr' fun i => forall_congr' fun hi => ?_
      rw [Nat.testBit_and, hnot i hi, Bool.and_true]
    rw [hsecond]
    exact ⟨fun h b hb => ⟨h.2 b hb, h.1 b hb⟩, fun h => ⟨hascii, fun b hb => (h b hb).1⟩⟩
  · exact iff_of_false (fun h => hascii h.1) fun h => hascii fun b hb => (h b hb).2

end Utf8
