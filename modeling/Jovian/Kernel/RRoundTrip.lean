import Jovian.Kernel.RJson

/-!
# RRoundTrip — what goes through R comes back (`jsonToSexp`, `sexpToJson`)

A comm message or an RPC's arguments become R values and are JSON again on the way out.

* `holds_vectorType` — the vector an array of one kind of scalars becomes holds each of them.
* `atomicToJson_vector` — a vector of other than one element is an array again.
* **`relayed_unchanged`** — a value without NULs, whose whole numbers a double holds and whose arrays
  of scalars have two elements or more, of one kind, is the same when it is back.
-/

namespace Jovian.RJson

open JsonValue

/-- Nulls and one kind of scalars. -/
def Uniform (xs : List JsonValue) : Prop :=
  (∀ e ∈ xs, isNull e ∨ isBoolean e) ∨ (∀ e ∈ xs, isNull e ∨ isNumber e) ∨ ∀ e ∈ xs, isNull e ∨ isString e

/-- What R keeps; an array without elements is one of these too. -/
inductive Relayed : JsonValue → Prop where
  | null : Relayed .null
  | boolean (b : Bool) : Relayed (.boolean b)
  | integer {n : Int} (h : n.natAbs < 2 ^ 53) : Relayed (.integer n)
  | float (q : Rat) : Relayed (.float (.finite q))
  | string {s : String} (h : '\x00' ∉ s.toList) : Relayed (.string s)
  | array {xs : List JsonValue}
      (hscalars : (∀ e ∈ xs, isPrimitive e) → xs = [] ∨ 2 ≤ xs.length ∧ Uniform xs)
      (h : ∀ x ∈ xs, Relayed x) : Relayed (.array xs)
  | object {ms : List (String × JsonValue)} (hsorted : Members.Sorted ms)
      (hkeys : ∀ m ∈ ms, '\x00' ∉ m.1.toList) (h : ∀ m ∈ ms, Relayed m.2) : Relayed (.object ms)

/-! ## Vectors -/

/-- What a vector of a type has a place for. -/
def VectorType.holds : VectorType → JsonValue → Bool
  | .logical, e => isNull e || isBoolean e
  | .integer, e => isNull e || fitsInteger e
  | .double, e => isNull e || isNumber e
  | .character, e => isNull e || isString e

theorem holds_vectorType {xs : List JsonValue} (h : Uniform xs) : ∀ e ∈ xs, (vectorType xs).holds e := by
  have hone : (∀ e ∈ xs, isNull e || isBoolean e) ∨ (∀ e ∈ xs, isNull e || isNumber e) ∨
      ∀ e ∈ xs, isNull e || isString e := by
    simpa [Uniform] using h
  unfold vectorType
  split
  · next hlogical => exact List.all_eq_true.1 hlogical
  · next hlogical =>
    split
    · next hinteger => exact List.all_eq_true.1 hinteger
    · split
      · next hdouble => exact List.all_eq_true.1 hdouble
      · next hdouble =>
        split
        · next hcharacter => exact List.all_eq_true.1 hcharacter
        · next hcharacter =>
          -- one of the three holds all elements
          rcases hone with h | h | h
          · exact absurd (List.all_eq_true.2 h) hlogical
          · exact absurd (List.all_eq_true.2 h) hdouble
          · exact absurd (List.all_eq_true.2 h) hcharacter

/-- The elements of a vector without attributes. -/
def values : Atomic → List JsonValue
  | .logical xs => xs.map fun x => (x.map boolean).getD .null
  | .integer xs => xs.map fun x => (x.map JsonValue.integer).getD .null
  | .double xs => xs.map fun x =>
    match x with
    | .finite q => .float (.finite q)
    | _ => .null
  | .character xs => xs.map fun s => (s.map JsonValue.string).getD .null

theorem allOf_atomicElement (v : Atomic) :
    allOf ((List.range v.length).map fun i => atomicElement v i none) = some (values v) := by
  cases v with
  | logical xs => exact allOf_range xs _
  | integer xs =>
    have hread : ∀ i, atomicElement (.integer xs) i none = xs[i]?.map fun x => (x.map JsonValue.integer).getD .null := by
      intro i
      simp only [atomicElement]
      cases xs[i]? with
      | none => rfl
      | some x => cases x <;> rfl
    simp only [hread]
    exact allOf_range xs _
  | double xs => exact allOf_range xs _
  | character xs => exact allOf_range xs _

/-- **A vector of other than one element is an array of its elements.** -/
theorem atomicToJson_vector {v : Atomic} (h : v.length ≠ 1) : atomicToJson v {} = some (.array (values v)) := by
  have hlevels : levelsOf {} = none := rfl
  simp only [atomicToJson, h, false_and, if_false, hlevels, allOf_atomicElement, Option.map_some]

theorem sexpToJson_vector (parse : String → JsonValue) {v : Atomic} (h : v.length ≠ 1) :
    sexpToJson parse false (.atomic v {}) = some (.array (values v)) := by
  have htext : jsonText v {} = none := by
    cases v with
    | character ss => unfold jsonText; split <;> rfl
    | _ => rfl
  rw [sexpToJson, htext]
  exact atomicToJson_vector h

/-- A string without a NUL, or null, in a character vector. -/
theorem toCharacter_of_holds (g15 : Double → String) {e : JsonValue} (he : Relayed e)
    (hholds : VectorType.character.holds e) :
    toCharacter g15 e = some (if isNull e then none else some (scalarText g15 e)) := by
  cases he with
  | null => rfl
  | string h => simp [toCharacter, isNull, scalarText, mkCharUtf8, h]
  | _ => simp [VectorType.holds, isNull, isString] at hholds

/-- An array of one kind of scalars becomes a vector with these elements. -/
theorem vectorToSexp_uniform (g15 : Double → String) {xs : List JsonValue} (h : ∀ x ∈ xs, Relayed x)
    (hone : Uniform xs) :
    ∃ v, vectorToSexp g15 xs = some (.atomic v {}) ∧ v.length = xs.length ∧
      (values v).map byValue = xs.map byValue := by
  have hholds := holds_vectorType hone
  unfold vectorToSexp
  cases htype : vectorType xs with
  | logical =>
    refine ⟨_, rfl, by simp [Atomic.length], ?_⟩
    rw [values, List.map_map, List.map_map]
    apply List.map_congr_left
    intro e he
    have hboolean : VectorType.logical.holds e := htype ▸ hholds e he
    cases e <;> first | rfl | simp [VectorType.holds, isNull, isBoolean] at hboolean
  | integer =>
    refine ⟨_, rfl, by simp [Atomic.length], ?_⟩
    rw [values, List.map_map, List.map_map]
    apply List.map_congr_left
    intro e he
    have hfits : VectorType.integer.holds e := htype ▸ hholds e he
    cases e <;> first | rfl | simp [VectorType.holds, isNull, fitsInteger] at hfits
  | double =>
    refine ⟨_, rfl, by simp [Atomic.length], ?_⟩
    rw [values, List.map_map, List.map_map]
    apply List.map_congr_left
    intro e he
    have hnumber : VectorType.double.holds e := htype ▸ hholds e he
    cases h e he with
    | null => rfl
    | integer hn => simp [toReal, byValue, toDouble_of_lt hn]
    | float q => rfl
    | _ => simp [VectorType.holds, isNull, isNumber] at hnumber
  | character =>
    have hcharacter : ∀ e ∈ xs, VectorType.character.holds e := fun e he => htype ▸ hholds e he
    have htext := allOf_map (f := toCharacter g15) fun e he => toCharacter_of_holds g15 (h e he) (hcharacter e he)
    refine ⟨.character (xs.map fun e => if isNull e then none else some (scalarText g15 e)), ?_,
      by simp [Atomic.length], ?_⟩
    · simp only [htext, Option.map_some]
    rw [values, List.map_map, List.map_map]
    apply List.map_congr_left
    intro e he
    have hstring := hcharacter e he
    cases e <;> first | rfl | simp [VectorType.holds, isNull, isString] at hstring

/-! ## Elements and members -/

/-- A value is back as it was. -/
def ComesBack (g15 : Double → String) (parse : String → JsonValue) (j : JsonValue) : Prop :=
  ∃ x, jsonToSexp g15 j = some x ∧ ∃ j', sexpToJson parse false x = some j' ∧ j'.byValue = j.byValue

theorem elements_back {g15 : Double → String} {parse : String → JsonValue} {xs : List JsonValue}
    (h : ∀ x ∈ xs, ComesBack g15 parse x) :
    ∃ ys, elementsToSexp g15 xs = some ys ∧
      ∃ js : List JsonValue, sexpsToJson parse false ys = js.map some ∧ js.map byValue = xs.map byValue := by
  induction xs with
  | nil => exact ⟨[], rfl, [], rfl, rfl⟩
  | cons x xs ih =>
    obtain ⟨y, hy, j, hj, hback⟩ := h x (List.mem_cons_self ..)
    obtain ⟨ys, hys, js, hjs, hbacks⟩ := ih fun z hz => h z (List.mem_cons_of_mem _ hz)
    refine ⟨y :: ys, by simp [elementsToSexp, hy, hys], j :: js, ?_, ?_⟩
    · rw [sexpsToJson, hj, hjs, List.map_cons]
    · rw [List.map_cons, List.map_cons, hback, hbacks]

theorem members_back {g15 : Double → String} {parse : String → JsonValue} {ms : List (String × JsonValue)}
    (hkeys : ∀ m ∈ ms, '\x00' ∉ m.1.toList) (h : ∀ m ∈ ms, ComesBack g15 parse m.2) :
    ∃ ys, membersToSexp g15 ms = some ys ∧ ys.map Prod.fst = ms.map Prod.fst ∧
      ∃ js : List JsonValue, sexpsToJson parse false (ys.map Prod.snd) = js.map some ∧
        js.map byValue = ms.map fun m => m.2.byValue := by
  induction ms with
  | nil => exact ⟨[], rfl, rfl, [], rfl, rfl⟩
  | cons m ms ih =>
    obtain ⟨y, hy, j, hj, hback⟩ := h m (List.mem_cons_self ..)
    obtain ⟨ys, hys, hnames, js, hjs, hbacks⟩ :=
      ih (fun n hn => hkeys n (List.mem_cons_of_mem _ hn)) fun n hn => h n (List.mem_cons_of_mem _ hn)
    have hkey : mkCharUtf8 m.1 = some m.1 := if_neg (hkeys m (List.mem_cons_self ..))
    refine ⟨(m.1, y) :: ys, by simp [membersToSexp, hy, hkey, hys], by simp [hnames], j :: js, ?_, ?_⟩
    · rw [List.map_cons, sexpsToJson, hj, hjs, List.map_cons]
    · rw [List.map_cons, List.map_cons, hback, hbacks]

theorem allOf_map_some {α : Type} (xs : List α) : allOf (xs.map some) = some xs := by
  rw [allOf_map (g := fun x => x) fun _ _ => rfl, List.map_id']

theorem namedToJson_some (members : List (String × JsonValue)) {names : List String} {js : List JsonValue}
    (h : names.length = js.length) :
    namedToJson members names (js.map some) =
      some ((names.zip js).foldl (fun acc m => Members.set m.1 m.2 acc) members) := by
  induction names generalizing members js with
  | nil =>
    cases js with
    | nil => rfl
    | cons => simp at h
  | cons name names ih =>
    cases js with
    | nil => simp at h
    | cons j js => exact ih _ (Nat.succ.inj h)

/-- Each key with its value, though the values are others. -/
theorem zip_byValue {ms : List (String × JsonValue)} {js : List JsonValue}
    (h : js.map byValue = ms.map fun m => m.2.byValue) :
    ((ms.map Prod.fst).zip js).map (fun m => (m.1, m.2.byValue)) = ms.map fun m => (m.1, m.2.byValue) := by
  induction ms generalizing js with
  | nil => rfl
  | cons m ms ih =>
    cases js with
    | nil => simp at h
    | cons j js =>
      obtain ⟨hj, hjs⟩ := List.cons.inj h
      rw [List.map_cons, List.zip_cons_cons, List.map_cons, ih hjs, List.map_cons, hj]

/-! ## There and back -/

theorem boolean_back (g15 : Double → String) (parse : String → JsonValue) (b : Bool) :
    ComesBack g15 parse (.boolean b) :=
  ⟨_, rfl, .boolean b, rfl, rfl⟩

theorem integer_back (g15 : Double → String) (parse : String → JsonValue) {n : Int} (h : n.natAbs < 2 ^ 53) :
    ComesBack g15 parse (.integer n) := by
  unfold ComesBack
  rw [jsonToSexp]
  split
  · exact ⟨_, rfl, .integer n, rfl, rfl⟩
  · refine ⟨_, rfl, .float (.finite n), ?_, rfl⟩
    rw [toDouble_of_lt h]
    rfl

theorem string_back (g15 : Double → String) (parse : String → JsonValue) {s : String}
    (h : '\x00' ∉ s.toList) : ComesBack g15 parse (.string s) := by
  refine ⟨.atomic (.character [some s]) {}, ?_, .string s, rfl, rfl⟩
  rw [jsonToSexp, mkCharUtf8, if_neg h]
  rfl

/-- An array with an element that is no scalar, or with none, is a list. -/
theorem list_back {g15 : Double → String} {parse : String → JsonValue} {xs : List JsonValue}
    (hlist : ¬ (xs ≠ [] ∧ xs.all isPrimitive)) (h : ∀ x ∈ xs, ComesBack g15 parse x) :
    ComesBack g15 parse (.array xs) := by
  obtain ⟨ys, hys, js, hjs, hback⟩ := elements_back h
  refine ⟨.list ys {}, ?_, .array js, ?_, ?_⟩
  · rw [jsonToSexp, if_neg hlist, hys, Option.map_some]
  · have hframe : Attributes.inherits {} "data.frame" = false := rfl
    simp only [sexpToJson, hframe, Bool.false_eq_true, if_false, listToJson, hjs, allOf_map_some, Option.map_some]
  · rw [byValue_array, byValue_array, hback]

theorem array_back (g15 : Double → String) (parse : String → JsonValue) {xs : List JsonValue}
    (hlen : 2 ≤ xs.length) (hprimitive : ∀ e ∈ xs, isPrimitive e) (hone : Uniform xs)
    (h : ∀ x ∈ xs, Relayed x) : ComesBack g15 parse (.array xs) := by
  obtain ⟨v, hv, hlength, hback⟩ := vectorToSexp_uniform g15 h hone
  have hne : xs ≠ [] := by
    intro h
    simp [h] at hlen
  refine ⟨.atomic v {}, ?_, .array (values v), sexpToJson_vector parse (by omega), ?_⟩
  · rw [jsonToSexp, if_pos ⟨hne, List.all_eq_true.2 hprimitive⟩, hv]
  · rw [byValue_array, byValue_array, hback]

theorem object_back {g15 : Double → String} {parse : String → JsonValue} {ms : List (String × JsonValue)}
    (hsorted : Members.Sorted ms) (hkeys : ∀ m ∈ ms, '\x00' ∉ m.1.toList)
    (h : ∀ m ∈ ms, ComesBack g15 parse m.2) : ComesBack g15 parse (.object ms) := by
  obtain ⟨ys, hys, hnames, js, hjs, hback⟩ := members_back hkeys h
  have hlength : (ms.map Prod.fst).length = js.length := by
    have := congrArg List.length hback
    simp only [List.length_map] at this ⊢
    omega
  -- the keys are in order, so each is set behind the ones before
  have hset : Members.Sorted ([] ++ (ms.map Prod.fst).zip js) := by
    show List.Pairwise _ _
    have hfst : ((ms.map Prod.fst).zip js).map Prod.fst = ms.map Prod.fst :=
      List.map_fst_zip hlength.le
    have hpairwise : (ms.map Prod.fst).Pairwise (· < ·) := List.pairwise_map.2 hsorted
    rw [← hfst, List.pairwise_map] at hpairwise
    exact hpairwise
  refine ⟨_, by rw [jsonToSexp, hys]; rfl, .object ((ms.map Prod.fst).zip js), ?_, ?_⟩
  · have hframe : Attributes.inherits { names := some (ms.map Prod.fst) } "data.frame" = false := rfl
    simp only [sexpToJson, hframe, Bool.false_eq_true, if_false, listToJson, hjs, hnames,
      namedToJson_some [] hlength, Option.map_some]
    rw [Members.foldl_set hset, List.nil_append]
  · rw [byValue_object, byValue_object, zip_byValue hback]

/-- **JSON through R is the JSON that went in**, numbers compared by value, however deep it is nested. -/
theorem relayed_unchanged (g15 : Double → String) (parse : String → JsonValue) {j : JsonValue} (h : Relayed j) :
    ∃ x, jsonToSexp g15 j = some x ∧ ∃ j', sexpToJson parse false x = some j' ∧ j'.byValue = j.byValue := by
  show ComesBack g15 parse j
  induction h with
  | null => exact ⟨.null, rfl, .null, rfl, rfl⟩
  | boolean b => exact boolean_back g15 parse b
  | integer h => exact integer_back g15 parse h
  | float q => exact ⟨_, rfl, .float (.finite q), rfl, rfl⟩
  | string h => exact string_back g15 parse h
  | @array xs hscalars h ih =>
    cases hscalar : decide (xs ≠ [] ∧ xs.all isPrimitive) with
    | false => exact list_back (of_decide_eq_false hscalar) ih
    | true =>
      obtain ⟨hne, hprimitive⟩ := of_decide_eq_true hscalar
      have hall := List.all_eq_true.1 hprimitive
      obtain ⟨hlen, hone⟩ := (hscalars hall).resolve_left hne
      exact array_back g15 parse hlen hall hone h
  | object hsorted hkeys h ih => exact object_back hsorted hkeys ih

/-- Nested arrays and objects, nulls among numbers. -/
theorem relayed_unchanged_nested :
    ∃ x, jsonToSexp (fun _ => "") (.object [("a", .array [.integer 1, .null]), ("b", .array [.object []])]) =
        some x ∧
      ∃ j', sexpToJson (fun _ => .discarded) false x = some j' ∧
        j'.byValue =
          JsonValue.byValue (.object [("a", .array [.integer 1, .null]), ("b", .array [.object []])]) := by
  apply relayed_unchanged
  apply Relayed.object
  · show List.Pairwise _ _
    decide
  · simp
  · intro m hm
    simp only [List.mem_cons, List.not_mem_nil, or_false] at hm
    rcases hm with rfl | rfl
    · refine .array (fun _ => .inr ⟨by simp, .inr (.inl (by simp [isNull, isNumber]))⟩) ?_
      intro x hx
      simp only [List.mem_cons, List.not_mem_nil, or_false] at hx
      rcases hx with rfl | rfl
      · exact .integer (by decide)
      · exact .null
    · refine .array (fun h => absurd (h _ (List.mem_singleton.2 rfl)) (by simp [isPrimitive])) ?_
      intro x hx
      rw [List.mem_singleton.1 hx]
      exact .object List.Pairwise.nil (by simp) (by simp)

end Jovian.RJson
