import Jovian.Lib.JsonText

/-!
# Jovian — JSON values as they are in memory (`nlohmann::json`)

A number is a whole number or a double, told apart though they may be of one value, and the members
of an object are in the order of their keys (`std::map`).

* `foldl_set` — an object's members, set one after the other, are that object's.
* **`read_text`** — the text of a value that holds nothing discarded and only finite numbers is read
  back.
-/

namespace Jovian

/-! ## Doubles -/

/-- A double by its value; R's `NA_real_` is one of those that are no number. -/
inductive Double where
  | finite (q : Rat)
  | nan
  | infinite (negative : Bool)
deriving DecidableEq

/-- The whole number of 53 bits that is nearest, the even one of two. -/
def toDouble (n : Int) : Int :=
  if n.natAbs < 2 ^ 53 then n
  else
    let shift := n.natAbs.log2 - 52
    let q := n.natAbs / 2 ^ shift
    let r := n.natAbs % 2 ^ shift
    let up := 2 ^ shift < 2 * r ∨ (2 ^ shift = 2 * r ∧ q % 2 = 1)
    n.sign * (((if up then q + 1 else q) * 2 ^ shift : Nat) : Int)

theorem toDouble_of_lt {n : Int} (h : n.natAbs < 2 ^ 53) : toDouble n = n :=
  if_pos h

/-! ## Members in the order of their keys -/

namespace Members

variable {α : Type}

/-- `out[key] = v` -/
def set (key : String) (v : α) : List (String × α) → List (String × α)
  | [] => [(key, v)]
  | m :: ms =>
    if key = m.1 then (key, v) :: ms
    else if key < m.1 then (key, v) :: m :: ms
    else m :: set key v ms

def Sorted (ms : List (String × α)) : Prop := ms.Pairwise fun m n => m.1 < n.1

/-- A key behind all others goes to the end. -/
theorem set_last {key : String} (v : α) {ms : List (String × α)} (h : ∀ m ∈ ms, m.1 < key) :
    set key v ms = ms ++ [(key, v)] := by
  induction ms with
  | nil => rfl
  | cons n ms ih =>
    have hn := h n (List.mem_cons_self ..)
    simp only [set, ne_of_gt hn, not_lt_of_gt hn, if_false, List.cons_append]
    rw [ih fun m hm => h m (List.mem_cons_of_mem _ hm)]

/-- Members set in the order of their keys are there as they were set. -/
theorem foldl_set {ms acc : List (String × α)} (h : Sorted (acc ++ ms)) :
    ms.foldl (fun acc m => set m.1 m.2 acc) acc = acc ++ ms := by
  induction ms generalizing acc with
  | nil => simp
  | cons m ms ih =>
    have hlast : ∀ n ∈ acc, n.1 < m.1 := fun n hn =>
      (List.pairwise_append.1 h).2.2 n hn m (List.mem_cons_self ..)
    have hassoc : acc ++ m :: ms = (acc ++ [m]) ++ ms := by simp
    rw [List.foldl_cons, set_last m.2 hlast, hassoc]
    exact ih (hassoc ▸ h)

theorem mem_set {key : String} {v : α} {ms : List (String × α)} {m : String × α} :
    m ∈ set key v ms → m = (key, v) ∨ m ∈ ms := by
  intro h
  induction ms with
  | nil => simpa [set] using h
  | cons n ms ih =>
    simp only [set] at h
    split at h
    · rcases List.mem_cons.1 h with h | h
      · exact .inl h
      · exact .inr (List.mem_cons_of_mem _ h)
    · split at h
      · exact List.mem_cons.1 h
      · rcases List.mem_cons.1 h with rfl | h
        · exact .inr (List.mem_cons_self ..)
        · exact (ih h).imp_right (List.mem_cons_of_mem _)

theorem set_sorted (key : String) (v : α) {ms : List (String × α)} (h : Sorted ms) :
    Sorted (set key v ms) := by
  induction ms with
  | nil => exact List.pairwise_singleton _ _
  | cons n ms ih =>
    obtain ⟨hn, hms⟩ := List.pairwise_cons.1 h
    simp only [set]
    split
    · next heq =>
      refine List.pairwise_cons.2 ⟨fun m hm => ?_, hms⟩
      show key < m.1
      rw [heq]
      exact hn m hm
    · next hne =>
      split
      · next hlt =>
        refine List.pairwise_cons.2 ⟨fun m hm => ?_, h⟩
        rcases List.mem_cons.1 hm with rfl | hm
        · exact hlt
        · exact lt_trans hlt (hn m hm)
      · next hnlt =>
        refine List.pairwise_cons.2 ⟨fun m hm => ?_, ih hms⟩
        rcases mem_set hm with rfl | hm
        · exact lt_of_le_of_ne (not_lt.1 hnlt) (Ne.symm hne)
        · exact hn m hm

/-- What is set is there, and what has another key stays. -/
theorem mem_set_iff {key : String} {v : α} {ms : List (String × α)} (hms : Sorted ms) {m : String × α} :
    m ∈ set key v ms ↔ m = (key, v) ∨ (m ∈ ms ∧ m.1 ≠ key) := by
  induction ms with
  | nil => simp [set]
  | cons n ms ih =>
    obtain ⟨hn, hsorted⟩ := List.pairwise_cons.1 hms
    simp only [set]
    split
    · next heq =>
      have hlater : ∀ m ∈ ms, m.1 ≠ key := fun m hm h => absurd (hn m hm) (by rw [h, heq]; exact lt_irrefl _)
      simp only [List.mem_cons]
      constructor
      · rintro (h | h)
        · exact .inl h
        · exact .inr ⟨.inr h, hlater m h⟩
      · rintro (h | ⟨rfl | h, hne⟩)
        · exact .inl h
        · exact absurd heq.symm hne
        · exact .inr h
    · next hne =>
      split
      · next hlt =>
        have hothers : ∀ m ∈ n :: ms, m.1 ≠ key := by
          intro m hm h
          rcases List.mem_cons.1 hm with rfl | hm
          · exact hne h.symm
          · exact absurd (lt_trans hlt (hn m hm)) (by rw [h]; exact lt_irrefl _)
        rw [List.mem_cons]
        refine or_congr_right ⟨fun h => ⟨h, hothers m h⟩, And.left⟩
      · rw [List.mem_cons, ih hsorted, List.mem_cons]
        constructor
        · rintro (rfl | h | ⟨h, hkey⟩)
          · exact .inr ⟨.inl rfl, Ne.symm hne⟩
          · exact .inl h
          · exact .inr ⟨.inr h, hkey⟩
        · rintro (h | ⟨rfl | h, hkey⟩)
          · exact .inr (.inl h)
          · exact .inl rfl
          · exact .inr (.inr ⟨h, hkey⟩)

/-- Set, and no member of that key after. -/
def LastSet (sets : List (String × α)) (m : String × α) : Prop :=
  ∃ pre post, sets = pre ++ m :: post ∧ ∀ n ∈ post, n.1 ≠ m.1

theorem lastSet_cons {s m : String × α} {sets : List (String × α)} :
    LastSet (s :: sets) m ↔ (m = s ∧ ∀ n ∈ sets, n.1 ≠ m.1) ∨ LastSet sets m := by
  constructor
  · intro ⟨pre, post, heq, hpost⟩
    cases pre with
    | nil =>
      obtain ⟨hs, hsets⟩ := List.cons.inj heq
      exact .inl ⟨hs.symm, hsets ▸ hpost⟩
    | cons t pre => exact .inr ⟨pre, post, (List.cons.inj heq).2, hpost⟩
  · intro h
    rcases h with ⟨heq, hpost⟩ | ⟨pre, post, heq, hpost⟩
    · exact ⟨[], sets, by rw [heq]; rfl, hpost⟩
    · exact ⟨s :: pre, post, by rw [heq]; rfl, hpost⟩

theorem foldl_set_sorted {sets acc : List (String × α)} (h : Sorted acc) :
    Sorted (sets.foldl (fun acc m => set m.1 m.2 acc) acc) := by
  induction sets generalizing acc with
  | nil => exact h
  | cons s sets ih => exact ih (set_sorted s.1 s.2 h)

/-- Each key has what was set last. -/
theorem mem_foldl_set {sets acc : List (String × α)} (h : Sorted acc) {m : String × α} :
    m ∈ sets.foldl (fun acc m => set m.1 m.2 acc) acc ↔
      (m ∈ acc ∧ ∀ n ∈ sets, n.1 ≠ m.1) ∨ LastSet sets m := by
  induction sets generalizing acc with
  | nil => simp [LastSet]
  | cons s sets ih =>
    rw [List.foldl_cons, ih (set_sorted s.1 s.2 h), mem_set_iff h, lastSet_cons, List.forall_mem_cons]
    constructor
    · intro hm
      rcases hm with ⟨heq | ⟨hacc, hkey⟩, hsets⟩ | hlast
      · exact .inr (.inl ⟨heq, hsets⟩)
      · exact .inl ⟨hacc, Ne.symm hkey, hsets⟩
      · exact .inr (.inr hlast)
    · intro hm
      rcases hm with ⟨hacc, hkey, hsets⟩ | ⟨heq, hsets⟩ | hlast
      · exact .inl ⟨.inr ⟨hacc, Ne.symm hkey⟩, hsets⟩
      · exact .inl ⟨.inl heq, hsets⟩
      · exact .inr hlast

/-- What is set last, of those that become something. -/
theorem lastSet_filterMap {β : Type} {f : α → Option β} {sets : List (String × α)} {key : String} {b : β} :
    LastSet (sets.filterMap fun m => (f m.2).map fun b => (m.1, b)) (key, b) ↔
      ∃ pre a post, sets = pre ++ (key, a) :: post ∧ f a = some b ∧
        ∀ n ∈ post, (f n.2).isSome → n.1 ≠ key := by
  induction sets with
  | nil => simp [LastSet]
  | cons s sets ih =>
    -- `s` itself, or one after it
    have hlater : (∃ pre a post, s :: sets = pre ++ (key, a) :: post ∧ f a = some b ∧
          ∀ n ∈ post, (f n.2).isSome → n.1 ≠ key) ↔
        (s.1 = key ∧ f s.2 = some b ∧ ∀ n ∈ sets, (f n.2).isSome → n.1 ≠ key) ∨
          ∃ pre a post, sets = pre ++ (key, a) :: post ∧ f a = some b ∧
            ∀ n ∈ post, (f n.2).isSome → n.1 ≠ key := by
      constructor
      · intro ⟨pre, a, post, heq, ha, hpost⟩
        cases pre with
        | nil =>
          obtain ⟨hs, hsets⟩ := List.cons.inj heq
          exact .inl ⟨by rw [hs], by rw [hs]; exact ha, hsets ▸ hpost⟩
        | cons t pre => exact .inr ⟨pre, a, post, (List.cons.inj heq).2, ha, hpost⟩
      · intro h
        rcases h with ⟨hkey, ha, hpost⟩ | ⟨pre, a, post, heq, ha, hpost⟩
        · exact ⟨[], s.2, sets, by rw [← hkey]; rfl, ha, hpost⟩
        · exact ⟨s :: pre, a, post, by rw [heq]; rfl, ha, hpost⟩
    rw [hlater, ← ih]
    cases hs : f s.2 with
    | none => simp [hs]
    | some c =>
      simp only [List.filterMap_cons, hs, Option.map_some, lastSet_cons, Prod.mk.injEq, Option.some.injEq]
      refine or_congr_left ?_
      have hsets : (∀ n ∈ sets.filterMap fun m => (f m.2).map fun b => (m.1, b), n.1 ≠ key) ↔
          ∀ n ∈ sets, (f n.2).isSome → n.1 ≠ key := by
        simp only [List.mem_filterMap, Option.map_eq_some_iff, Option.isSome_iff_exists]
        constructor
        · intro h n hn ⟨d, hd⟩
          exact h (n.1, d) ⟨n, hn, d, hd, rfl⟩
        · intro h m ⟨n, hn, d, hd, heq⟩
          rw [← heq]
          exact h n hn ⟨d, hd⟩
      rw [hsets]
      constructor
      · intro ⟨⟨hkey, hb⟩, h⟩
        exact ⟨hkey.symm, hb.symm, h⟩
      · intro ⟨hkey, hb, h⟩
        exact ⟨⟨hkey.symm, hb.symm⟩, h⟩

end Members

/-! ## Values -/

inductive JsonValue where
  | discarded
  | null
  | boolean (b : Bool)
  /-- `number_integer` or `number_unsigned` -/
  | integer (n : Int)
  /-- `number_float` -/
  | float (x : Double)
  | string (s : String)
  | array (elements : List JsonValue)
  | object (members : List (String × JsonValue))

namespace JsonValue

def isDiscarded : JsonValue → Bool
  | .discarded => true
  | _ => false

/-- Nothing discarded, no number that is none, and objects in the order of their keys. -/
inductive Proper : JsonValue → Prop where
  | null : Proper .null
  | boolean (b : Bool) : Proper (.boolean b)
  | integer (n : Int) : Proper (.integer n)
  | float (q : Rat) : Proper (.float (.finite q))
  | string (s : String) : Proper (.string s)
  | array {xs : List JsonValue} (h : ∀ x ∈ xs, Proper x) : Proper (.array xs)
  | object {ms : List (String × JsonValue)} (hsorted : Members.Sorted ms) (h : ∀ m ∈ ms, Proper m.2) :
      Proper (.object ms)

theorem Proper.not_discarded {j : JsonValue} (h : j.Proper) : ¬ j.isDiscarded := by
  cases h <;> simp [isDiscarded]

theorem proper_array {xs : List JsonValue} : Proper (.array xs) ↔ ∀ x ∈ xs, Proper x := by
  constructor
  · intro h
    cases h with
    | array h => exact h
  · exact .array

theorem proper_object {ms : List (String × JsonValue)} (hsorted : Members.Sorted ms) :
    Proper (.object ms) ↔ ∀ m ∈ ms, Proper m.2 := by
  constructor
  · intro h
    cases h with
    | object _ h => exact h
  · exact .object hsorted

/-! ## Numbers by their value -/

mutual

/-- The value with each whole number as the double of that value. -/
def byValue : JsonValue → JsonValue
  | .discarded => .discarded
  | .null => .null
  | .boolean b => .boolean b
  | .integer n => .float (.finite n)
  | .float x => .float x
  | .string s => .string s
  | .array xs => .array (byValueElements xs)
  | .object ms => .object (byValueMembers ms)

def byValueElements : List JsonValue → List JsonValue
  | [] => []
  | x :: xs => byValue x :: byValueElements xs

def byValueMembers : List (String × JsonValue) → List (String × JsonValue)
  | [] => []
  | m :: ms => (m.1, byValue m.2) :: byValueMembers ms

end

theorem byValueElements_eq (xs : List JsonValue) : byValueElements xs = xs.map byValue := by
  induction xs with
  | nil => rfl
  | cons x xs ih => rw [byValueElements, ih, List.map_cons]

theorem byValueMembers_eq (ms : List (String × JsonValue)) :
    byValueMembers ms = ms.map fun m => (m.1, byValue m.2) := by
  induction ms with
  | nil => rfl
  | cons m ms ih => rw [byValueMembers, ih, List.map_cons]

theorem byValue_array (xs : List JsonValue) : byValue (.array xs) = .array (xs.map byValue) := by
  rw [byValue, byValueElements_eq]

theorem byValue_object (ms : List (String × JsonValue)) :
    byValue (.object ms) = .object (ms.map fun m => (m.1, byValue m.2)) := by
  rw [byValue, byValueMembers_eq]

/-! ## Text -/

/-- How numbers are written. -/
structure Spelling where
  integer : Int → String
  finite : Rat → String
  /-- As JSON has them. -/
  integer_isNumber : ∀ n, Json.IsNumber (integer n)
  finite_isNumber : ∀ q, Json.IsNumber (finite q)

mutual

/-- The value with its numbers as they are written; one that is none is written `null`. -/
def spelled (sp : Spelling) : JsonValue → Json
  | .discarded => .discarded
  | .null => .null
  | .boolean b => .bool b
  | .integer n => .number (sp.integer n)
  | .float (.finite q) => .number (sp.finite q)
  | .float _ => .null
  | .string s => .string s
  | .array xs => .array (spelledElements sp xs)
  | .object ms => .object (spelledMembers sp ms)

def spelledElements (sp : Spelling) : List JsonValue → List Json
  | [] => []
  | x :: xs => spelled sp x :: spelledElements sp xs

def spelledMembers (sp : Spelling) : List (String × JsonValue) → List (String × Json)
  | [] => []
  | m :: ms => (m.1, spelled sp m.2) :: spelledMembers sp ms

end

/-- `dump()` -/
def text (sp : Spelling) (j : JsonValue) : List Char := Json.dump (spelled sp j)

theorem spelledElements_eq (sp : Spelling) (xs : List JsonValue) :
    spelledElements sp xs = xs.map (spelled sp) := by
  induction xs with
  | nil => rfl
  | cons x xs ih => rw [spelledElements, ih, List.map_cons]

theorem spelledMembers_eq (sp : Spelling) (ms : List (String × JsonValue)) :
    spelledMembers sp ms = ms.map fun m => (m.1, spelled sp m.2) := by
  induction ms with
  | nil => rfl
  | cons m ms ih => rw [spelledMembers, ih, List.map_cons]

theorem canonical_spelled (sp : Spelling) {j : JsonValue} (h : j.Proper) : Json.Canonical (spelled sp j) := by
  induction h with
  | null => exact .null
  | boolean b => exact .bool b
  | integer n => exact .number (sp.integer_isNumber n)
  | float q => exact .number (sp.finite_isNumber q)
  | string s => exact .string s
  | array _ ih =>
    rw [spelled, spelledElements_eq]
    apply Json.Canonical.array
    intro e he
    obtain ⟨x, hx, rfl⟩ := List.mem_map.1 he
    exact ih x hx
  | object hsorted _ ih =>
    rw [spelled, spelledMembers_eq]
    apply Json.Canonical.object
    · rw [List.pairwise_map]
      exact hsorted
    · intro e he
      obtain ⟨m, hm, rfl⟩ := List.mem_map.1 he
      exact ih m hm

/-- **A proper value's text is JSON.** -/
theorem read_text (sp : Spelling) {j : JsonValue} (h : j.Proper) :
    Json.read .strict (text sp j) = some (spelled sp j) :=
  Json.read_dump (canonical_spelled sp h)

/-! ### The value of a text -/

variable (number : String → JsonValue)

mutual

/-- What a text's parts are in memory; `number` is what its numbers are. -/
def ofJson : Json → JsonValue
  | .discarded => .discarded
  | .null => .null
  | .bool b => .boolean b
  | .number s => number s
  | .string s => .string s
  | .array es => .array (ofElements es)
  | .object ms => .object (ofMembers ms)

def ofElements : List Json → List JsonValue
  | [] => []
  | e :: es => ofJson e :: ofElements es

def ofMembers : List (String × Json) → List (String × JsonValue)
  | [] => []
  | m :: ms => (m.1, ofJson m.2) :: ofMembers ms

end

variable {number : String → JsonValue}

theorem ofElements_eq (es : List Json) : ofElements number es = es.map (ofJson number) := by
  induction es with
  | nil => rfl
  | cons e es ih => rw [ofElements, ih, List.map_cons]

theorem ofMembers_eq (ms : List (String × Json)) :
    ofMembers number ms = ms.map fun m => (m.1, ofJson number m.2) := by
  induction ms with
  | nil => rfl
  | cons m ms ih => rw [ofMembers, ih, List.map_cons]

theorem proper_ofJson (hnumber : ∀ s, (number s).Proper) {j : Json} (h : j.Canonical) :
    (ofJson number j).Proper := by
  induction h with
  | null => exact .null
  | bool b => exact .boolean b
  | number _ => exact hnumber _
  | string s => exact .string s
  | array _ ih =>
    rw [ofJson, ofElements_eq]
    apply Proper.array
    intro x hx
    obtain ⟨e, he, rfl⟩ := List.mem_map.1 hx
    exact ih e he
  | object hsorted _ ih =>
    rw [ofJson, ofMembers_eq]
    apply Proper.object
    · show List.Pairwise _ _
      rw [List.pairwise_map]
      exact hsorted
    · intro x hx
      obtain ⟨m, hm, rfl⟩ := List.mem_map.1 hx
      exact ih m hm

end JsonValue

end Jovian
