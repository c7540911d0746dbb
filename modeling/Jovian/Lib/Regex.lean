import Mathlib.Data.List.Infix

/-!
# Regex — regular expressions that are text with wildcards

Of an ECMAScript expression over bytes: characters that stand for themselves, escaped ones that do,
`.` and `.*`. An expression of anything else is left to an engine that is given.

* **`search_iff`** — what is found: text before, text that the pieces match, text behind.
-/

namespace Regex

abbrev Bytes := List UInt8

inductive Piece where
  | byte (b : UInt8)
  /-- `.` -/
  | any
  /-- `.*` -/
  | anyMany
deriving DecidableEq

/-- What `.` does not match. -/
def lineEnd (b : UInt8) : Bool := b = 10 || b = 13

/-- `^ $ \ . * + ? ( ) [ ] { } |` -/
def syntaxBytes : Bytes := [94, 36, 92, 46, 42, 43, 63, 40, 41, 91, 93, 123, 125, 124]

/-- Letters, digits, the underscore, and what is not ASCII: an escape of one of these is not the
character itself. -/
def wordByte (b : UInt8) : Bool :=
  (48 ≤ b && b ≤ 57) || (65 ≤ b && b ≤ 90) || (97 ≤ b && b ≤ 122) || b = 95 || 128 ≤ b

/-- The pieces of an expression, if it has no others. -/
def plain : Bytes → Option (List Piece)
  | [] => some []
  | 92 :: c :: rest => if wordByte c then none else (plain rest).map (.byte c :: ·)
  | 46 :: 42 :: rest => (plain rest).map (.anyMany :: ·)
  | 46 :: rest => (plain rest).map (.any :: ·)
  | c :: rest => if c ∈ syntaxBytes then none else (plain rest).map (.byte c :: ·)

theorem plain_byte {c : UInt8} (h : c ∉ syntaxBytes) (rest : Bytes) :
    plain (c :: rest) = (plain rest).map (.byte c :: ·) := by
  have h92 : c ≠ 92 := fun hc => h (hc ▸ by decide)
  have h46 : c ≠ 46 := fun hc => h (hc ▸ by decide)
  rw [plain]
  · exact if_neg h
  · exact fun _ _ hc => absurd hc h92
  · exact fun _ hc => absurd hc h46
  · exact fun hc => absurd hc h46

/-- What is left when some of the line is passed by. -/
def skips : Bytes → List Bytes
  | [] => [[]]
  | b :: bs => (b :: bs) :: if lineEnd b then [] else skips bs

/-- Whether the pieces match a beginning of it. -/
def matchHere : List Piece → Bytes → Bool
  | [], _ => true
  | .byte b :: ps, c :: cs => c = b && matchHere ps cs
  | .any :: ps, c :: cs => !lineEnd c && matchHere ps cs
  | .anyMany :: ps, cs => (skips cs).any (matchHere ps)
  | .byte _ :: _, [] | .any :: _, [] => false

/-- `regex_search`, for an expression of these pieces. -/
def search (ps : List Piece) (s : Bytes) : Bool := s.tails.any (matchHere ps)

/-- Whether the expression finds something in a text; `none` where it cannot be compiled. -/
def compile (engine : Bytes → Option (Bytes → Bool)) (expr : Bytes) : Option (Bytes → Bool) :=
  match plain expr with
  | some ps => some (search ps)
  | none => engine expr

/-! ## What is matched -/

/-- The pieces match all of it. -/
inductive Matches : List Piece → Bytes → Prop where
  | nil : Matches [] []
  | byte (b : UInt8) {ps : List Piece} {s : Bytes} (h : Matches ps s) : Matches (.byte b :: ps) (b :: s)
  | any {c : UInt8} {ps : List Piece} {s : Bytes} (hc : lineEnd c = false) (h : Matches ps s) :
      Matches (.any :: ps) (c :: s)
  | anyMany (line : Bytes) {ps : List Piece} {s : Bytes} (hline : ∀ c ∈ line, lineEnd c = false)
      (h : Matches ps s) : Matches (.anyMany :: ps) (line ++ s)

theorem mem_skips {s rest : Bytes} : rest ∈ skips s ↔
    ∃ line, s = line ++ rest ∧ ∀ c ∈ line, lineEnd c = false := by
  induction s with
  | nil =>
    rw [skips, List.mem_singleton]
    constructor
    · rintro rfl
      exact ⟨[], rfl, by simp⟩
    · rintro ⟨line, hline, -⟩
      exact (List.append_eq_nil_iff.mp hline.symm).2
  | cons b s ih =>
    rw [skips, List.mem_cons]
    constructor
    · rintro (rfl | hrest)
      · exact ⟨[], rfl, by simp⟩
      · cases hb : lineEnd b with
        | true => simp [hb] at hrest
        | false =>
          rw [hb] at hrest
          obtain ⟨line, rfl, hline⟩ := ih.mp hrest
          exact ⟨b :: line, rfl, List.forall_mem_cons.mpr ⟨hb, hline⟩⟩
    · rintro ⟨_ | ⟨c, line⟩, hs, hline⟩
      · exact .inl hs.symm
      · obtain ⟨rfl, rfl⟩ := List.cons.inj hs
        obtain ⟨hb, hline⟩ := List.forall_mem_cons.mp hline
        rw [hb]
        exact .inr (ih.mpr ⟨line, rfl, hline⟩)

theorem matchHere_iff (ps : List Piece) (s : Bytes) : matchHere ps s = true ↔
    ∃ front rest, s = front ++ rest ∧ Matches ps front := by
  induction ps generalizing s with
  | nil =>
    rw [matchHere]
    exact iff_of_true rfl ⟨[], s, rfl, .nil⟩
  | cons p ps ih =>
    cases p with
    | byte b =>
      cases s with
      | nil =>
        refine iff_of_false Bool.false_ne_true ?_
        rintro ⟨front, rest, hs, hmatches⟩
        cases hmatches
        cases hs
      | cons c s =>
        rw [matchHere, Bool.and_eq_true, decide_eq_true_iff, ih]
        constructor
        · rintro ⟨rfl, front, rest, rfl, hmatches⟩
          exact ⟨c :: front, rest, rfl, .byte c hmatches⟩
        · rintro ⟨front, rest, hs, hmatches⟩
          cases hmatches with
          | byte _ hmatches =>
            obtain ⟨rfl, rfl⟩ := List.cons.inj hs
            exact ⟨rfl, _, rest, rfl, hmatches⟩
    | any =>
      cases s with
      | nil =>
        refine iff_of_false Bool.false_ne_true ?_
        rintro ⟨front, rest, hs, hmatches⟩
        cases hmatches
        cases hs
      | cons c s =>
        rw [matchHere, Bool.and_eq_true, Bool.not_eq_true', ih]
        constructor
        · rintro ⟨hc, front, rest, rfl, hmatches⟩
          exact ⟨c :: front, rest, rfl, .any hc hmatches⟩
        · rintro ⟨front, rest, hs, hmatches⟩
          cases hmatches with
          | any hc hmatches =>
            obtain ⟨rfl, rfl⟩ := List.cons.inj hs
            exact ⟨hc, _, rest, rfl, hmatches⟩
    | anyMany =>
      rw [matchHere, List.any_eq_true]
      constructor
      · rintro ⟨after, hafter, hmatch⟩
        obtain ⟨line, rfl, hline⟩ := mem_skips.mp hafter
        obtain ⟨front, rest, rfl, hmatches⟩ := (ih after).mp hmatch
        exact ⟨line ++ front, rest, (List.append_assoc ..).symm, .anyMany line hline hmatches⟩
      · rintro ⟨front, rest, rfl, hmatches⟩
        cases hmatches with
        | @anyMany line _ s hline hmatches =>
          refine ⟨s ++ rest, mem_skips.mpr ⟨line, List.append_assoc .., hline⟩, ?_⟩
          exact (ih _).mpr ⟨s, rest, rfl, hmatches⟩

/-- **What is found**: somewhere in the text there is something that the pieces match. -/
theorem search_iff (ps : List Piece) (s : Bytes) : search ps s = true ↔
    ∃ before found rest, s = before ++ (found ++ rest) ∧ Matches ps found := by
  rw [search, List.any_eq_true]
  constructor
  · rintro ⟨after, hafter, hmatch⟩
    obtain ⟨before, rfl⟩ := (List.mem_tails _ _).mp hafter
    obtain ⟨found, rest, rfl, hmatches⟩ := (matchHere_iff ps after).mp hmatch
    exact ⟨before, found, rest, rfl, hmatches⟩
  · rintro ⟨before, found, rest, rfl, hmatches⟩
    exact ⟨found ++ rest, (List.mem_tails _ _).mpr ⟨before, rfl⟩,
      (matchHere_iff ps _).mpr ⟨found, rest, rfl, hmatches⟩⟩

end Regex
