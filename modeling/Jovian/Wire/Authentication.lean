import Jovian.Wire.Serializer

/-!
# Jovian — the signature of a message (`OpensslAuthentication`)

A message is signed with the hex digest of an HMAC of its parts. The check computes the digest and
compares it with the signature's frame over the length of the digest. The length of the frame is
not looked at: a frame that goes on behind the digest passes, and a shorter one is compared with
what lies behind it in memory.

* **`exact_iff`** — for which frames the check is exact (`Exact`).
* **`signature_checked_iff`** — and for which messages deserialising is.
-/

namespace Jovian.Wire

open Utf8 (Bytes)

/-! ## The digest -/

/-- The HMAC, of a key and of data. -/
structure Hmac where
  size : Nat
  digest : Bytes → Bytes → Bytes
  length_digest : ∀ key data, (digest key data).length = size

/-- `{:02x}` -/
def hexByte (byte : UInt8) : Bytes :=
  [byte.toNat / 16, byte.toNat % 16].map fun n => n.digitChar.toNat.toUInt8

structure OpensslAuthentication where
  hmac : Hmac
  key : Bytes

namespace OpensslAuthentication

def computeHexSignature (auth : OpensslAuthentication) (parts : List Bytes) : Bytes :=
  (auth.hmac.digest auth.key parts.flatten).flatMap hexByte

def sign (auth : OpensslAuthentication) (parts : List Bytes) : Bytes :=
  auth.computeHexSignature parts

end OpensslAuthentication

/-! ## The check -/

/-- What is read at an offset from a frame's beginning: the frame, and what lies behind it. -/
def byteAt (frame : Bytes) (behind : Nat → UInt8) (i : Nat) : UInt8 :=
  if h : i < frame.length then frame[i] else behind (i - frame.length)

/-- `CRYPTO_memcmp`: the differences of the first bytes, and the offsets that were read. -/
def cryptoMemcmp (a b : Nat → UInt8) : Nat → UInt8 × List Nat
  | 0 => (0, [])
  | n + 1 =>
    let (differences, offsets) := cryptoMemcmp a b n
    (differences ||| (a n ^^^ b n), offsets ++ [n])

/-- Whether a signature passes, and the offsets from its beginning that were read. -/
def OpensslAuthentication.verifyImpl (auth : OpensslAuthentication) (behind : Nat → UInt8)
    (signature : Bytes) (parts : List Bytes) : Bool × List Nat :=
  let hexSig := auth.computeHexSignature parts
  let (cmp, offsets) := cryptoMemcmp (byteAt hexSig fun _ => 0) (byteAt signature behind) hexSig.length
  (cmp = 0, offsets)

/-- A reader of messages that checks their signatures. -/
def OpensslAuthentication.codec (auth : OpensslAuthentication) (parse : Bytes → Json)
    (behind : Nat → UInt8) : Codec where
  parse := parse
  verify signature header parentHeader metadata content :=
    (auth.verifyImpl behind signature [header, parentHeader, metadata, content]).1

/-! ## The property -/

/-- **The check is exact**: it accepts the digest and no other frame, whatever lies behind it, and
reads nothing but the frame. -/
structure Exact (auth : OpensslAuthentication) (signature : Bytes) (parts : List Bytes) : Prop where
  accepted : ∀ behind, (auth.verifyImpl behind signature parts).1 = true ↔
    signature = auth.computeHexSignature parts
  inside : ∀ behind, ∀ i ∈ (auth.verifyImpl behind signature parts).2, i < signature.length

/-- A frame that is not too short for a digest, and does not go on behind the digest. -/
def Measured (auth : OpensslAuthentication) (signature : Bytes) (parts : List Bytes) : Prop :=
  (auth.computeHexSignature parts).length ≤ signature.length ∧
    ∀ rest, signature = auth.computeHexSignature parts ++ rest → rest = []

/-- A delimiter, and five frames or more behind it, with the digest as the signature. -/
def WellSigned (auth : OpensslAuthentication) (wire : List Bytes) : Prop :=
  ∃ before header parentHeader metadata content buffers,
    splitDelimiter wire = some (before,
      auth.sign [header, parentHeader, metadata, content] :: header :: parentHeader :: metadata ::
        content :: buffers)

/-- What holds of the signature of a message that has its five frames. -/
def OnSignature (P : Bytes → List Bytes → Prop) (wire : List Bytes) : Prop :=
  ∀ before signature header parentHeader metadata content buffers,
    splitDelimiter wire =
      some (before, signature :: header :: parentHeader :: metadata :: content :: buffers) →
    P signature [header, parentHeader, metadata, content]

structure Checked (auth : OpensslAuthentication) (deferLargeContent : Bool) (wire : List Bytes) :
    Prop where
  accepted : ∀ parse behind,
    (∃ m, deserialize (auth.codec parse behind) deferLargeContent wire = .ok m) ↔
      WellSigned auth wire
  inside : OnSignature (fun signature parts =>
    ∀ behind, ∀ i ∈ (auth.verifyImpl behind signature parts).2, i < signature.length) wire

/-! ## What is compared -/

theorem cryptoMemcmp_offsets (a b : Nat → UInt8) (n : Nat) :
    (cryptoMemcmp a b n).2 = List.range n := by
  induction n with
  | zero => rfl
  | succ n ih => rw [List.range_succ, ← ih]; rfl

theorem cryptoMemcmp_eq_zero_iff {a b : Nat → UInt8} {n : Nat} :
    (cryptoMemcmp a b n).1 = 0 ↔ ∀ i < n, a i = b i := by
  induction n with
  | zero => simp [cryptoMemcmp]
  | succ n ih =>
    rw [cryptoMemcmp, UInt8.or_eq_zero_iff, UInt8.xor_eq_zero_iff, ih]
    constructor
    · rintro ⟨hbelow, hn⟩ i hi
      rcases Nat.lt_succ_iff_lt_or_eq.mp hi with hlt | rfl
      · exact hbelow i hlt
      · exact hn
    · intro h
      exact ⟨fun i hi => h i (Nat.lt_succ_of_lt hi), h n (Nat.lt_succ_self n)⟩

theorem byteAt_of_lt {frame : Bytes} {behind : Nat → UInt8} {i : Nat} (h : i < frame.length) :
    byteAt frame behind i = frame[i] := by
  rw [byteAt, dif_pos h]

section Verify

variable {auth : OpensslAuthentication} {behind : Nat → UInt8} {signature : Bytes}
  {parts : List Bytes}

theorem verifyImpl_offsets : (auth.verifyImpl behind signature parts).2 =
    List.range (auth.computeHexSignature parts).length :=
  cryptoMemcmp_offsets _ _ _

/-- A frame of the digest's length or more passes where it begins with the digest. -/
theorem verifyImpl_iff (h : (auth.computeHexSignature parts).length ≤ signature.length) :
    (auth.verifyImpl behind signature parts).1 = true ↔
      ∃ rest, signature = auth.computeHexSignature parts ++ rest := by
  show decide (_ = _) = true ↔ _
  rw [decide_eq_true_iff, cryptoMemcmp_eq_zero_iff]
  constructor
  · intro hsame
    refine ⟨signature.drop (auth.computeHexSignature parts).length, ?_⟩
    have htake : signature.take (auth.computeHexSignature parts).length =
        auth.computeHexSignature parts := by
      refine List.ext_getElem (by simpa using h) fun i hi hi' => ?_
      have heq := hsame i hi'
      rw [byteAt_of_lt hi', byteAt_of_lt (Nat.lt_of_lt_of_le hi' h)] at heq
      rw [List.getElem_take, heq]
    calc signature
        = signature.take _ ++ signature.drop _ := (List.take_append_drop _ _).symm
      _ = _ := by rw [htake]
  · rintro ⟨rest, hrest⟩ i hi
    rw [byteAt_of_lt hi, byteAt_of_lt (Nat.lt_of_lt_of_le hi h)]
    simp only [hrest, List.getElem_append_left hi]

/-- A signature passes its own check. -/
theorem verifyImpl_sign : (auth.verifyImpl behind (auth.sign parts) parts).1 = true :=
  (verifyImpl_iff (Nat.le_refl _)).mpr ⟨[], (List.append_nil _).symm⟩

/-- **For which frames the check is exact.** -/
theorem exact_iff : Exact auth signature parts ↔ Measured auth signature parts := by
  constructor
  · intro h
    have hlength : (auth.computeHexSignature parts).length ≤ signature.length := by
      by_contra hshort
      -- the first offset behind the frame is read
      have hread : signature.length ∈ (auth.verifyImpl (fun _ => 0) signature parts).2 := by
        rw [verifyImpl_offsets, List.mem_range]
        exact Nat.lt_of_not_le hshort
      exact Nat.lt_irrefl _ (h.inside (fun _ => 0) _ hread)
    refine ⟨hlength, fun rest hrest => ?_⟩
    have hequal := (h.accepted fun _ => 0).mp ((verifyImpl_iff hlength).mpr ⟨rest, hrest⟩)
    rw [hequal] at hrest
    simpa using hrest
  · rintro ⟨hlength, hmeasured⟩
    refine ⟨fun behind => ?_, fun behind i hi => ?_⟩
    · rw [verifyImpl_iff hlength]
      constructor
      · rintro ⟨rest, hrest⟩
        rw [hmeasured rest hrest, List.append_nil] at hrest
        exact hrest
      · intro hequal
        exact ⟨[], by rw [List.append_nil]; exact hequal⟩
    · rw [verifyImpl_offsets, List.mem_range] at hi
      exact Nat.lt_of_lt_of_le hi hlength

end Verify

/-! ## Deserialising -/

section Deserialize

variable {auth : OpensslAuthentication} {d : Bool} {wire : List Bytes}

theorem deserialize_codec_iff {parse : Bytes → Json} {behind : Nat → UInt8} :
    (∃ m, deserialize (auth.codec parse behind) d wire = .ok m) ↔
      ∃ before signature header parentHeader metadata content buffers,
        splitDelimiter wire =
          some (before, signature :: header :: parentHeader :: metadata :: content :: buffers) ∧
        (auth.verifyImpl behind signature [header, parentHeader, metadata, content]).1 = true := by
  constructor
  · rintro ⟨m, hm⟩
    obtain ⟨header, parentHeader, metadata, content, buffers, ⟨signature, hsplit, hverify⟩, -⟩ :=
      deserialize_ok_iff.mp hm
    exact ⟨_, signature, header, parentHeader, metadata, content, buffers, hsplit, hverify⟩
  · rintro ⟨before, signature, header, parentHeader, metadata, content, buffers, hsplit, hverify⟩
    exact ⟨⟨before, _⟩, deserialize_ok_iff.mpr
      ⟨header, parentHeader, metadata, content, buffers, ⟨signature, hsplit, hverify⟩, rfl⟩⟩

theorem checked_iff : Checked auth d wire ↔ OnSignature (Measured auth) wire := by
  constructor
  · intro h before signature header parentHeader metadata content buffers hsplit
    refine exact_iff.mp ⟨fun behind => ?_, h.inside _ _ _ _ _ _ _ hsplit⟩
    constructor
    · intro hverify
      obtain ⟨_, _, _, _, _, _, hsigned⟩ := (h.accepted (fun _ => .null) behind).mp
        (deserialize_codec_iff.mpr ⟨_, _, _, _, _, _, _, hsplit, hverify⟩)
      rw [hsplit] at hsigned
      simp only [Option.some.injEq, Prod.mk.injEq, List.cons.injEq] at hsigned
      obtain ⟨-, hsigned, rfl, rfl, rfl, rfl, -⟩ := hsigned
      exact hsigned
    · rintro rfl
      exact verifyImpl_sign
  · intro h
    have hexact : OnSignature (Exact auth) wire :=
      fun _ _ _ _ _ _ _ hsplit => exact_iff.mpr (h _ _ _ _ _ _ _ hsplit)
    refine ⟨fun parse behind => ?_, fun _ _ _ _ _ _ _ hsplit => (hexact _ _ _ _ _ _ _ hsplit).inside⟩
    rw [deserialize_codec_iff]
    constructor
    · rintro ⟨before, signature, header, parentHeader, metadata, content, buffers, hsplit, hverify⟩
      have hequal := ((hexact _ _ _ _ _ _ _ hsplit).accepted behind).mp hverify
      rw [hequal] at hsplit
      exact ⟨before, header, parentHeader, metadata, content, buffers, hsplit⟩
    · rintro ⟨before, header, parentHeader, metadata, content, buffers, hsplit⟩
      exact ⟨before, _, header, parentHeader, metadata, content, buffers, hsplit, verifyImpl_sign⟩

end Deserialize

/-- **Signatures are checked where they are not too short, nor longer than the digest they begin
with.** Just there the check accepts the digest alone and reads the frame alone, and deserialising
accepts just the messages with a delimiter, five frames and that digest. -/
theorem signature_checked_iff (auth : OpensslAuthentication) :
    (∀ signature parts, Exact auth signature parts ↔ Measured auth signature parts) ∧
      ∀ d wire, Checked auth d wire ↔ OnSignature (Measured auth) wire :=
  ⟨fun _ _ => exact_iff, fun _ _ => checked_iff⟩

/-! ## A frame that goes on, and one that is too short -/

/-- One byte, of all of them. -/
def checksum : OpensslAuthentication where
  hmac := ⟨1, fun key data => [(key ++ data).foldl (· + ·) 0], fun _ _ => rfl⟩
  key := [1]

/-- A message under a signature. -/
def messageUnder (signature : Bytes) : List Bytes := [delimiter, signature, [2], [3], [4], [5]]

/-- The digest with a byte behind it passes; and so does an empty frame that the digest lies
behind. -/
theorem signature_not_checked :
    (¬Exact checksum (checksum.sign [[2], [3], [4], [5]] ++ [0]) [[2], [3], [4], [5]] ∧
      ¬Checked checksum false (messageUnder (checksum.sign [[2], [3], [4], [5]] ++ [0]))) ∧
    (checksum.verifyImpl (fun i => (checksum.sign [[2], [3], [4], [5]]).getD i 0) []
      [[2], [3], [4], [5]]).1 = true ∧
    ¬Exact checksum [] [[2], [3], [4], [5]] ∧ ¬Checked checksum false (messageUnder []) := by
  have hover : ¬Measured checksum (checksum.sign [[2], [3], [4], [5]] ++ [0]) [[2], [3], [4], [5]] :=
    fun h => by cases h.2 [0] rfl
  have hshort : ¬Measured checksum [] [[2], [3], [4], [5]] := fun h => absurd h.1 (by decide)
  have hsplit (signature : Bytes) : splitDelimiter (messageUnder signature) =
      some ([], [signature, [2], [3], [4], [5]]) := by
    simp [messageUnder, splitDelimiter]
  exact ⟨⟨fun h => hover (exact_iff.mp h),
      fun h => hover (checked_iff.mp h _ _ _ _ _ _ _ (hsplit _))⟩, by decide,
    fun h => hshort (exact_iff.mp h),
    fun h => hshort (checked_iff.mp h _ _ _ _ _ _ _ (hsplit _))⟩

end Jovian.Wire
