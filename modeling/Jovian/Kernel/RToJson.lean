import Mathlib.Logic.Relation
import Jovian.Kernel.RJson

/-!
# RToJson — whether an R value becomes valid JSON (`sexpToJson`)

`sexpToJson` asks the first column of a data frame how many rows there are, and takes what a `json`
string parses to as it is, a `discarded` value where the text is not JSON.

* `isSome_iff` — it reads nothing outside a vector where every data frame it goes into has, in each
  column it reads, as many elements as in the first.
* `proper_iff` — what it then gives is JSON where every `json` text that stays in it is.
* **`valid_iff`** — the two together.
-/

namespace Jovian.RJson

open JsonValue

/-! ## R values as R makes them -/

/-- `nrow()`, or the length. -/
def rowCount : Sexp → Option Nat
  | .atomic v a =>
    match a.dim with
    | some [nrow, _] => some nrow
    | _ => some v.length
  | .raw bytes => some bytes.length
  | .list xs a =>
    if a.inherits "data.frame" then a.rowNames.map fun
      | .integer n => n
      | .character names => names.length
    else some xs.length
  | .null | .other => none

/-- Names and dimensions fit, and the columns of a data frame have its number of rows. -/
inductive WellFormed : Sexp → Prop where
  | null : WellFormed .null
  | atomic {v : Atomic} {a : Attributes}
      (hdim : ∀ nrow ncol, a.dim = some [nrow, ncol] → v.length = nrow * ncol) : WellFormed (.atomic v a)
  | raw (bytes : List UInt8) : WellFormed (.raw bytes)
  | list {xs : List Sexp} {a : Attributes} (hnames : ∀ names, a.names = some names → names.length = xs.length)
      (hframe : a.inherits "data.frame" → a.names.isSome ∧
        ∃ rows, rowCount (.list xs a) = some rows ∧ ∀ c ∈ xs, rowCount c = some rows)
      (h : ∀ x ∈ xs, WellFormed x) : WellFormed (.list xs a)
  | other : WellFormed .other

/-! ## What it goes into -/

/-- The elements of a list, or the cells in the list columns of a frame. -/
inductive Part : Sexp → Sexp → Prop where
  | element {xs : List Sexp} {a : Attributes} {y : Sexp} (hframe : ¬ a.inherits "data.frame") (h : y ∈ xs) :
      Part (.list xs a) y
  | cell {xs ys : List Sexp} {a b : Attributes} {r : Nat} {y : Sexp} (hframe : a.inherits "data.frame")
      (hcolumn : .list ys b ∈ xs) (hr : r < frameRows xs) (h : ys[r]? = some y) : Part (.list xs a) y

/-- A column whose elements are read. -/
def isRead : Sexp → Bool
  | .atomic _ _ | .list _ _ => true
  | _ => false

/-- No column that is read has fewer elements than the first. -/
def Fits : Sexp → Prop
  | .list xs a => a.inherits "data.frame" → ∀ c ∈ xs, isRead c → frameRows xs ≤ c.xlength
  | _ => True

/-- Every data frame it goes into fits. -/
def InBounds (x : Sexp) : Prop := ∀ y, Relation.ReflTransGen Part x y → Fits y

/-- Whether a column has something in a row. -/
def hasCell (r : Nat) : Sexp → Bool
  | .list _ _ => true
  | .atomic v a => (atomicElement v r (levelsOf a)).any fun j => !isNull j
  | _ => false

/-- What stays: of members of one name, the last one that has something. -/
inductive Kept : Sexp → Sexp → Prop where
  | element {xs : List Sexp} {a : Attributes} {y : Sexp} (hframe : ¬ a.inherits "data.frame")
      (hnames : a.names = none) (h : y ∈ xs) : Kept (.list xs a) y
  | member {xs : List Sexp} {a : Attributes} {names : List String} {pre post : List (String × Sexp)}
      {name : String} {y : Sexp} (hframe : ¬ a.inherits "data.frame") (hnames : a.names = some names)
      (h : names.zip xs = pre ++ (name, y) :: post) (hlast : ∀ p ∈ post, p.1 ≠ name) : Kept (.list xs a) y
  | cell {xs ys : List Sexp} {a b : Attributes} {pre post : List (String × Sexp)} {name : String} {r : Nat}
      {y : Sexp} (hframe : a.inherits "data.frame") (hr : r < frameRows xs)
      (h : (a.names.getD []).zip xs = pre ++ (name, .list ys b) :: post) (hcell : ys[r]? = some y)
      (hlast : ∀ p ∈ post, hasCell r p.2 → p.1 ≠ name) : Kept (.list xs a) y

/-- The text of a `json` string parses. -/
def Parses (parse : String → JsonValue) : Sexp → Prop
  | .atomic v a => ∀ text, jsonText v a = some text → ¬ (parse text).isDiscarded
  | _ => True

/-- Every `json` text that stays is JSON. -/
def Clean (parse : String → JsonValue) (x : Sexp) : Prop :=
  ∀ y, Relation.ReflTransGen Kept x y → Parses parse y

theorem Kept.part {x y : Sexp} (h : Kept x y) : Part x y := by
  cases h with
  | element hframe _ h => exact .element hframe h
  | member hframe _ h =>
    exact .element hframe (List.of_mem_zip (h ▸ List.mem_append_right _ (List.mem_cons_self ..))).2
  | cell hframe hr h hcell =>
    exact .cell hframe (List.of_mem_zip (h ▸ List.mem_append_right _ (List.mem_cons_self ..))).2 hr hcell

theorem wellFormed_part {x y : Sexp} (h : WellFormed x) (hpart : Part x y) : WellFormed y := by
  cases hpart with
  | element _ hy =>
    cases h with
    | list _ _ h => exact h y hy
  | cell _ hcolumn _ hy =>
    cases h with
    | list _ _ h =>
      cases h _ hcolumn with
      | list _ _ h => exact h y (List.mem_of_getElem? hy)

/-- What `sexpToJson` goes into is smaller. -/
theorem sizeOf_part {x y : Sexp} (h : Part x y) : sizeOf y < sizeOf x := by
  cases h with
  | element _ hy =>
    have := List.sizeOf_lt_of_mem hy
    simp only [Sexp.list.sizeOf_spec]
    omega
  | @cell xs ys a b r y _ hcolumn _ hy =>
    have hys := List.sizeOf_lt_of_mem (List.mem_of_getElem? hy)
    have hxs := List.sizeOf_lt_of_mem hcolumn
    simp only [Sexp.list.sizeOf_spec] at hxs ⊢
    omega

theorem part_induction {P : Sexp → Prop} (h : ∀ x, (∀ y, Part x y → P y) → P x) (x : Sexp) : P x :=
  h x fun y hy =>
    have := sizeOf_part hy
    part_induction h y
termination_by sizeOf x

/-! ## What it reads -/

theorem atomicElement_isSome {v : Atomic} {i : Nat} {levels : Option (List (Option String))} :
    (atomicElement v i levels).isSome ↔ i < v.length := by
  cases v with
  | integer xs =>
    -- a code that is no level is null
    simp only [atomicElement, Atomic.length, Option.isSome_bind]
    cases hx : xs[i]? with
    | none => simpa using hx
    | some x =>
      have hi := (List.getElem?_eq_some_iff.1 hx).1
      refine iff_of_true ?_ hi
      cases x with
      | none => rfl
      | some n =>
        cases levels with
        | none => rfl
        | some levels =>
          simp only [Option.any_some]
          split
          · next hlevel =>
            have hn : (n - 1).toNat < levels.length := by omega
            simp only [List.getElem?_eq_getElem hn, Option.map_some, Option.isSome_some]
          · rfl
  | _ => simp [atomicElement, Atomic.length]

theorem matrixToJson_isSome {v : Atomic} {levels : Option (List (Option String))} {nrow ncol : Nat}
    (h : v.length = nrow * ncol) : (matrixToJson v levels nrow ncol).isSome := by
  unfold matrixToJson
  simp only [Option.isSome_map, allOf_isSome, List.mem_map, List.mem_range, forall_exists_index, and_imp]
  intro _ r hr heq
  subst heq
  simp only [Option.isSome_map, allOf_isSome, List.mem_map, List.mem_range, forall_exists_index, and_imp]
  intro _ c hc heq
  subst heq
  rw [atomicElement_isSome, h]
  -- column `c` is all before the end of the last
  calc r + c * nrow < nrow + c * nrow := by omega
    _ = (c + 1) * nrow := by rw [Nat.succ_mul, Nat.add_comm]
    _ ≤ ncol * nrow := Nat.mul_le_mul_right _ hc
    _ = nrow * ncol := Nat.mul_comm ..

theorem atomicToJson_isSome {v : Atomic} {a : Attributes}
    (h : ∀ nrow ncol, a.dim = some [nrow, ncol] → v.length = nrow * ncol) : (atomicToJson v a).isSome := by
  unfold atomicToJson
  split
  · next nrow ncol hdim => exact matrixToJson_isSome (h nrow ncol hdim)
  · split
    · next hone =>
      rw [atomicElement_isSome]
      omega
    · simp only [Option.isSome_map, allOf_isSome, List.mem_map, List.mem_range, forall_exists_index, and_imp]
      intro _ i hi heq
      rw [← heq, atomicElement_isSome]
      exact hi

theorem namedToJson_isSome {members : List (String × JsonValue)} {names : List String}
    {os : List (Option JsonValue)} (h : names.length = os.length) :
    (namedToJson members names os).isSome ↔ ∀ o ∈ os, o.isSome := by
  induction os generalizing names members with
  | nil => simp [namedToJson]
  | cons o os ih =>
    cases names with
    | nil => simp at h
    | cons name names =>
      cases o with
      | none => simp [namedToJson]
      | some j => simpa [namedToJson] using ih (Nat.succ.inj h)

/-- A column that has a row `r`, with a value in it. -/
def hasRow (parse : String → JsonValue) (nullAsObject : Bool) (r : Nat) : Sexp → Prop
  | .list ys _ => ∃ y, ys[r]? = some y ∧ (sexpToJson parse nullAsObject y).isSome
  | .atomic v _ => r < v.length
  | _ => True

theorem setCell_isSome {parse : String → JsonValue} {nullAsObject : Bool} {r : Nat}
    (row : List (String × JsonValue)) (name : String) {c : Sexp} :
    (setCell r row name (column parse nullAsObject c)).isSome ↔ hasRow parse nullAsObject r c := by
  cases c with
  | list ys b =>
    simp only [column, setCell, sexpsToJson_eq, List.getElem?_map, hasRow]
    cases ys[r]? <;> simp
  | atomic v a => simp only [column, setCell, Option.isSome_map, atomicElement_isSome, hasRow]
  | _ => simp [column, setCell, hasRow]

theorem setCells_isSome {parse : String → JsonValue} {nullAsObject : Bool} {r : Nat}
    (row : List (String × JsonValue)) {names : List String} {xs : List Sexp} (h : names.length = xs.length) :
    (setCells r row names (columns parse nullAsObject xs)).isSome ↔ ∀ c ∈ xs, hasRow parse nullAsObject r c := by
  induction xs generalizing names row with
  | nil => simp [columns, setCells]
  | cons c xs ih =>
    cases names with
    | nil => simp at h
    | cons name names =>
      simp only [columns, setCells, List.forall_mem_cons]
      rw [← setCell_isSome row name]
      cases setCell r row name (column parse nullAsObject c) with
      | none => simp
      | some row => simpa using ih _ (Nat.succ.inj h)

theorem frameToJson_isSome {parse : String → JsonValue} {nullAsObject : Bool} {names : List String}
    {rowNames : Option RowNames} {rows : Nat} {xs : List Sexp} (h : names.length = xs.length) :
    (frameToJson names rowNames rows (columns parse nullAsObject xs)).isSome ↔
      ∀ r < rows, ∀ c ∈ xs, hasRow parse nullAsObject r c := by
  simp only [frameToJson, Option.isSome_map, allOf_isSome, List.mem_map, List.mem_range, forall_exists_index,
    and_imp]
  constructor
  · intro hall r hr
    have hrow := hall _ r hr rfl
    rw [Option.isSome_map, setCells_isSome _ h] at hrow
    exact hrow
  · intro hall _ r hr heq
    rw [← heq, Option.isSome_map, setCells_isSome _ h]
    exact hall r hr

/-- Every row of a frame is in every column that is read, and what is there becomes something. -/
theorem hasRow_all {parse : String → JsonValue} {nullAsObject : Bool} {xs : List Sexp} {a : Attributes}
    (hframe : a.inherits "data.frame") :
    (∀ r < frameRows xs, ∀ c ∈ xs, hasRow parse nullAsObject r c) ↔
      Fits (.list xs a) ∧ ∀ y, Part (.list xs a) y → (sexpToJson parse nullAsObject y).isSome := by
  constructor
  · intro h
    refine ⟨fun _ c hc hread => ?_, fun y hy => ?_⟩
    · -- the last row is in the column, so all are
      cases hrows : frameRows xs with
      | zero => exact Nat.zero_le _
      | succ r =>
        have hrow := h r (by omega) c hc
        cases c with
        | list ys b =>
          obtain ⟨y, hy, _⟩ := hrow
          exact (List.getElem?_eq_some_iff.1 hy).1
        | atomic v b => exact hrow
        | _ => cases hread
    · cases hy with
      | element hnot => exact absurd hframe hnot
      | cell _ hcolumn hr hcell =>
        obtain ⟨z, hz, hsome⟩ := h _ hr _ hcolumn
        rw [hcell] at hz
        cases hz
        exact hsome
  · intro ⟨hfits, hparts⟩ r hr c hc
    have hle := hfits hframe c hc
    cases c with
    | list ys b =>
      have hlt : r < ys.length := lt_of_lt_of_le hr (hle rfl)
      exact ⟨_, List.getElem?_eq_getElem hlt,
        hparts _ (.cell hframe hc hr (List.getElem?_eq_getElem hlt))⟩
    | atomic v b => exact lt_of_lt_of_le hr (hle rfl)
    | _ => exact trivial

/-- One step: what is read of `x` itself, and what becomes of its parts. -/
theorem isSome_step (parse : String → JsonValue) (nullAsObject : Bool) {x : Sexp} (h : WellFormed x) :
    (sexpToJson parse nullAsObject x).isSome ↔
      Fits x ∧ ∀ y, Part x y → (sexpToJson parse nullAsObject y).isSome := by
  cases h with
  | null => exact iff_of_true rfl ⟨trivial, fun y hy => nomatch hy⟩
  | raw => exact iff_of_true rfl ⟨trivial, fun y hy => nomatch hy⟩
  | other => exact iff_of_true rfl ⟨trivial, fun y hy => nomatch hy⟩
  | @atomic v a hdim =>
    refine iff_of_true ?_ ⟨trivial, fun y hy => nomatch hy⟩
    rw [sexpToJson]
    split
    · rfl
    · exact atomicToJson_isSome hdim
  | @list xs a hnames hframe h =>
    rw [sexpToJson]
    split
    · next hdata =>
      obtain ⟨names, hsome⟩ := Option.isSome_iff_exists.1 (hframe hdata).1
      rw [hsome, Option.getD_some, frameToJson_isSome (hnames names hsome)]
      exact hasRow_all hdata
    · next hdata =>
      have hparts : (∀ o ∈ sexpsToJson parse nullAsObject xs, o.isSome) ↔
          ∀ y, Part (.list xs a) y → (sexpToJson parse nullAsObject y).isSome := by
        rw [sexpsToJson_eq, List.forall_mem_map]
        constructor
        · intro hall y hy
          cases hy with
          | element _ hy => exact hall y hy
          | cell hframe => exact absurd hframe hdata
        · exact fun hall y hy => hall y (.element hdata hy)
      have hfits : Fits (.list xs a) := fun hframe => absurd hframe hdata
      rw [and_iff_right hfits, ← hparts]
      unfold listToJson
      split
      · next names hsome =>
        rw [Option.isSome_map]
        apply namedToJson_isSome
        rw [hnames names hsome, sexpsToJson_eq, List.length_map]
      · rw [Option.isSome_map, allOf_isSome]

/-- What holds at every place that is reached holds here, and wherever one step goes. -/
theorem forall_reached {α : Type} {R : α → α → Prop} {P : α → Prop} {x : α} :
    (∀ y, Relation.ReflTransGen R x y → P y) ↔ P x ∧ ∀ y, R x y → ∀ z, Relation.ReflTransGen R y z → P z := by
  constructor
  · exact fun h => ⟨h x .refl, fun y hy z hz => h z (.head hy hz)⟩
  · intro ⟨hx, hsteps⟩ y hy
    rcases Relation.ReflTransGen.cases_head hy with heq | ⟨z, hz, hzy⟩
    · exact heq ▸ hx
    · exact hsteps z hz y hzy

/-- **It reads nothing outside a vector where every frame it goes into fits.** -/
theorem isSome_iff (parse : String → JsonValue) (nullAsObject : Bool) {x : Sexp} (h : WellFormed x) :
    (sexpToJson parse nullAsObject x).isSome ↔ InBounds x := by
  induction x using part_induction with
  | h x ih =>
    unfold InBounds
    rw [isSome_step parse nullAsObject h, forall_reached]
    refine and_congr_right fun _ => forall₂_congr fun y hy => ?_
    exact ih y hy (wellFormed_part h hy)

/-! ## What it gives -/

theorem atomicElement_proper {v : Atomic} {i : Nat} {levels : Option (List (Option String))} {j : JsonValue}
    (h : atomicElement v i levels = some j) : j.Proper := by
  cases v with
  | logical xs =>
    obtain ⟨x, _, rfl⟩ := Option.map_eq_some_iff.1 h
    cases x with
    | none => exact .null
    | some b => exact .boolean b
  | integer xs =>
    obtain ⟨x, _, hx⟩ := Option.bind_eq_some_iff.1 h
    cases x with
    | none =>
      cases hx
      exact .null
    | some n =>
      cases levels with
      | none =>
        cases hx
        exact .integer n
      | some levels =>
        simp only at hx
        split at hx
        · obtain ⟨s, _, rfl⟩ := Option.map_eq_some_iff.1 hx
          exact .string _
        · cases hx
          exact .null
  | double xs =>
    obtain ⟨x, _, rfl⟩ := Option.map_eq_some_iff.1 h
    cases x with
    | finite q => exact .float q
    | nan => exact .null
    | infinite negative => exact .null
  | character xs =>
    obtain ⟨s, _, rfl⟩ := Option.map_eq_some_iff.1 h
    cases s with
    | none => exact .null
    | some s => exact .string s

theorem atomicToJson_proper {v : Atomic} {a : Attributes} {j : JsonValue} (h : atomicToJson v a = some j) :
    j.Proper := by
  unfold atomicToJson at h
  split at h
  · obtain ⟨rows, hrows, rfl⟩ := Option.map_eq_some_iff.1 h
    apply JsonValue.Proper.array
    intro row hrow
    obtain ⟨r, _, hr⟩ := List.mem_map.1 ((mem_allOf hrows).1 hrow)
    obtain ⟨cells, hcells, rfl⟩ := Option.map_eq_some_iff.1 hr
    apply JsonValue.Proper.array
    intro cell hcell
    obtain ⟨c, _, hc⟩ := List.mem_map.1 ((mem_allOf hcells).1 hcell)
    exact atomicElement_proper hc
  · split at h
    · exact atomicElement_proper h
    · obtain ⟨js, hjs, rfl⟩ := Option.map_eq_some_iff.1 h
      apply JsonValue.Proper.array
      intro j hj
      obtain ⟨i, _, hi⟩ := List.mem_map.1 ((mem_allOf hjs).1 hj)
      exact atomicElement_proper hi

/-- What becomes of the elements is set under their names, one after the other. -/
theorem namedToJson_eq {f : Sexp → Option JsonValue} {members out : List (String × JsonValue)}
    {names : List String} {xs : List Sexp} (h : namedToJson members names (xs.map f) = some out) :
    out = ((names.zip xs).filterMap fun p => (f p.2).map fun j => (p.1, j)).foldl
      (fun acc m => Members.set m.1 m.2 acc) members := by
  induction xs generalizing names members with
  | nil =>
    simp only [List.map_nil, namedToJson, Option.some.injEq] at h
    simp [h]
  | cons x xs ih =>
    cases names with
    | nil => cases h
    | cons name names =>
      obtain ⟨j, hj, hout⟩ := Option.bind_eq_some_iff.1 h
      simp only [List.zip_cons_cons, List.filterMap_cons, hj, Option.map_some]
      exact ih hout

/-- What a column has in row `r`. -/
def cellOf (f : Sexp → Option JsonValue) (r : Nat) : Sexp → Option JsonValue
  | .list ys _ => ys[r]?.bind f
  | .atomic v a => (atomicElement v r (levelsOf a)).filter fun j => !isNull j
  | _ => none

theorem setCell_eq {parse : String → JsonValue} {nullAsObject : Bool} {r : Nat}
    {row out : List (String × JsonValue)} {name : String} {c : Sexp}
    (h : setCell r row name (column parse nullAsObject c) = some out) :
    out = ((cellOf (sexpToJson parse nullAsObject) r c).map fun j => Members.set name j row).getD row := by
  cases c with
  | list ys b =>
    simp only [column, setCell, sexpsToJson_eq, List.getElem?_map] at h
    obtain ⟨cell, hcell, hj⟩ := Option.bind_eq_some_iff.1 h
    obtain ⟨y, hy, rfl⟩ := Option.map_eq_some_iff.1 hcell
    obtain ⟨j, hj, rfl⟩ := Option.map_eq_some_iff.1 hj
    simp [cellOf, hy, hj]
  | atomic v a =>
    obtain ⟨j, hj, rfl⟩ := Option.map_eq_some_iff.1 h
    cases j <;> simp [cellOf, hj, isNull, Option.filter]
  | _ =>
    cases h
    rfl

theorem setCells_eq {parse : String → JsonValue} {nullAsObject : Bool} {r : Nat}
    {row out : List (String × JsonValue)} {names : List String} {xs : List Sexp}
    (h : setCells r row names (columns parse nullAsObject xs) = some out) :
    out = ((names.zip xs).filterMap fun p =>
        (cellOf (sexpToJson parse nullAsObject) r p.2).map fun j => (p.1, j)).foldl
      (fun acc m => Members.set m.1 m.2 acc) row := by
  induction xs generalizing names row with
  | nil =>
    simp only [columns, setCells, Option.some.injEq] at h
    simp [h]
  | cons c xs ih =>
    cases names with
    | nil => cases h
    | cons name names =>
      obtain ⟨next, hnext, hout⟩ := Option.bind_eq_some_iff.1 h
      have hcell := setCell_eq hnext
      cases hc : cellOf (sexpToJson parse nullAsObject) r c with
      | none =>
        simp only [hc, Option.map_none, Option.getD_none] at hcell
        simp only [List.zip_cons_cons, List.filterMap_cons, hc, Option.map_none]
        exact hcell ▸ ih hout
      | some j =>
        simp only [hc, Option.map_some, Option.getD_some] at hcell
        simp only [List.zip_cons_cons, List.filterMap_cons, hc, Option.map_some, List.foldl_cons]
        exact hcell ▸ ih hout

/-- A column that has something in a row, where the row is in the column. -/
theorem cellOf_isSome {parse : String → JsonValue} {nullAsObject : Bool} {r : Nat} {c : Sexp}
    (h : hasRow parse nullAsObject r c) :
    (cellOf (sexpToJson parse nullAsObject) r c).isSome ↔ hasCell r c := by
  cases c with
  | list ys b =>
    obtain ⟨y, hy, hsome⟩ := h
    simp [cellOf, hasCell, hy, hsome]
  | atomic v a =>
    simp only [cellOf, hasCell]
    cases atomicElement v r (levelsOf a) <;> simp [Option.filter]
  | _ => simp [cellOf, hasCell]

theorem rowStart_sorted (rowNames : Option RowNames) (r : Nat) : Members.Sorted (rowStart rowNames r) := by
  unfold rowStart
  split
  · split
    · exact Members.set_sorted _ _ List.Pairwise.nil
    · exact List.Pairwise.nil
  · exact List.Pairwise.nil

theorem rowStart_proper {rowNames : Option RowNames} {r : Nat} {m : String × JsonValue}
    (h : m ∈ rowStart rowNames r) : m.2.Proper := by
  unfold rowStart at h
  split at h
  · split at h
    · next s _ =>
      rw [Members.set, List.mem_singleton] at h
      subst h
      cases s with
      | none => exact .null
      | some s => exact .string s
    · cases h
  · cases h

/-- A list's members, those that are set last. -/
theorem named_proper {f : Sexp → Option JsonValue} {names : List String} {xs : List Sexp}
    {out : List (String × JsonValue)} (h : namedToJson [] names (xs.map f) = some out)
    (hall : ∀ x ∈ xs, (f x).isSome) :
    JsonValue.Proper (.object out) ↔
      ∀ pre name y post, names.zip xs = pre ++ (name, y) :: post → (∀ p ∈ post, p.1 ≠ name) →
        ∀ k, f y = some k → k.Proper := by
  have hout := namedToJson_eq h
  have hsorted : Members.Sorted out := hout ▸ Members.foldl_set_sorted List.Pairwise.nil
  have hmem : ∀ m, m ∈ out ↔
      Members.LastSet ((names.zip xs).filterMap fun p => (f p.2).map fun j => (p.1, j)) m := by
    intro m
    rw [hout, Members.mem_foldl_set List.Pairwise.nil]
    simp
  rw [JsonValue.proper_object hsorted]
  constructor
  · intro hproper pre name y post heq hlast k hk
    refine hproper (name, k) ((hmem _).2 (Members.lastSet_filterMap.2 ⟨pre, y, post, heq, hk, ?_⟩))
    exact fun p hp _ => hlast p hp
  · intro hkept m hm
    obtain ⟨pre, y, post, heq, hy, hlast⟩ := Members.lastSet_filterMap.1 ((hmem m).1 hm)
    refine hkept pre m.1 y post heq (fun p hp => hlast p hp (hall p.2 ?_)) m.2 hy
    have hzip : p ∈ names.zip xs := heq ▸ List.mem_append_right _ (List.mem_cons_of_mem _ hp)
    exact (List.of_mem_zip (a := p.1) (b := p.2) hzip).2

/-- A frame's row, of the cells that are set last. -/
theorem row_proper {parse : String → JsonValue} {nullAsObject : Bool} {r : Nat} {rowNames : Option RowNames}
    {names : List String} {xs : List Sexp} {out : List (String × JsonValue)}
    (h : setCells r (rowStart rowNames r) names (columns parse nullAsObject xs) = some out)
    (hrows : ∀ c ∈ xs, hasRow parse nullAsObject r c) :
    JsonValue.Proper (.object out) ↔
      ∀ pre name ys b post, names.zip xs = pre ++ (name, .list ys b) :: post →
        (∀ p ∈ post, hasCell r p.2 → p.1 ≠ name) →
          ∀ y k, ys[r]? = some y → sexpToJson parse nullAsObject y = some k → k.Proper := by
  have hout := setCells_eq h
  have hstart := rowStart_sorted rowNames r
  have hsorted : Members.Sorted out := hout ▸ Members.foldl_set_sorted hstart
  have hcells : ∀ {pre post name c}, names.zip xs = pre ++ (name, c) :: post → ∀ p ∈ post,
      ((cellOf (sexpToJson parse nullAsObject) r p.2).isSome ↔ hasCell r p.2) := by
    intro pre post name c heq p hp
    have hzip : p ∈ names.zip xs := heq ▸ List.mem_append_right _ (List.mem_cons_of_mem _ hp)
    exact cellOf_isSome (hrows p.2 (List.of_mem_zip (a := p.1) (b := p.2) hzip).2)
  rw [JsonValue.proper_object hsorted]
  constructor
  · intro hproper pre name ys b post heq hlast y k hy hk
    refine hproper (name, k) ?_
    rw [hout, Members.mem_foldl_set hstart]
    refine .inr (Members.lastSet_filterMap.2 ⟨pre, .list ys b, post, heq, ?_, ?_⟩)
    · show ys[r]?.bind _ = some k
      rw [hy]
      exact hk
    · exact fun p hp hcell => hlast p hp ((hcells heq p hp).1 hcell)
  · intro hkept m hm
    rw [hout, Members.mem_foldl_set hstart] at hm
    rcases hm with ⟨hm, _⟩ | hm
    · exact rowStart_proper hm
    · obtain ⟨pre, c, post, heq, hc, hlast⟩ := Members.lastSet_filterMap.1 hm
      cases c with
      | list ys b =>
        obtain ⟨y, hy, hk⟩ := Option.bind_eq_some_iff.1 hc
        exact hkept pre m.1 ys b post heq (fun p hp hcell => hlast p hp ((hcells heq p hp).2 hcell)) y m.2 hy hk
      | atomic v a => exact atomicElement_proper (Option.filter_eq_some_iff.1 hc).1
      | _ => cases hc

section
variable {parse : String → JsonValue} {nullAsObject : Bool}

theorem frame_step {xs : List Sexp} {a : Attributes} {names : List String} {j : JsonValue}
    (hframe : a.inherits "data.frame") (hnames : a.names = some names) (hlength : names.length = xs.length)
    (hj : frameToJson names a.rowNames (frameRows xs) (columns parse nullAsObject xs) = some j) :
    j.Proper ↔ ∀ y, Kept (.list xs a) y → ∀ k, sexpToJson parse nullAsObject y = some k → k.Proper := by
  have hrows := (frameToJson_isSome hlength).1 (Option.isSome_iff_exists.2 ⟨j, hj⟩)
  obtain ⟨rows, hall, rfl⟩ := Option.map_eq_some_iff.1 hj
  rw [JsonValue.proper_array]
  constructor
  · intro hproper y hy k hk
    cases hy with
    | element hnot => exact absurd hframe hnot
    | member hnot => exact absurd hframe hnot
    | @cell _ ys _ b pre post name r _ _ hr heq hcell hlast =>
      rw [hnames, Option.getD_some] at heq
      obtain ⟨out, hout⟩ := Option.isSome_iff_exists.1
        ((setCells_isSome (rowStart a.rowNames r) hlength).2 (hrows r hr))
      have hrow : JsonValue.object out ∈ rows :=
        (mem_allOf hall).2 (List.mem_map.2 ⟨r, List.mem_range.2 hr, by rw [hout]; rfl⟩)
      exact (row_proper hout (hrows r hr)).1 (hproper _ hrow) pre name ys b post heq hlast y k hcell hk
  · intro hkept row hrow
    obtain ⟨r, hr, hset⟩ := List.mem_map.1 ((mem_allOf hall).1 hrow)
    obtain ⟨out, hout, rfl⟩ := Option.map_eq_some_iff.1 hset
    have hlt := List.mem_range.1 hr
    refine (row_proper hout (hrows r hlt)).2 fun pre name ys b post heq hlast y k hy hk => ?_
    exact hkept y (.cell hframe hlt (by rw [hnames]; exact heq) hy hlast) k hk

theorem list_step {xs : List Sexp} {a : Attributes} {j : JsonValue} (hframe : ¬ a.inherits "data.frame")
    (hj : listToJson a.names (xs.map (sexpToJson parse nullAsObject)) = some j)
    (hall : ∀ x ∈ xs, (sexpToJson parse nullAsObject x).isSome) :
    j.Proper ↔ ∀ y, Kept (.list xs a) y → ∀ k, sexpToJson parse nullAsObject y = some k → k.Proper := by
  cases hnames : a.names with
  | some names =>
    rw [hnames] at hj
    obtain ⟨out, hout, rfl⟩ := Option.map_eq_some_iff.1 hj
    rw [named_proper hout hall]
    constructor
    · intro hproper y hy k hk
      cases hy with
      | element _ hnone => cases hnames.symm.trans hnone
      | member _ hsome heq hlast =>
        cases hnames.symm.trans hsome
        exact hproper _ _ y _ heq hlast k hk
      | cell hdata => exact absurd hdata hframe
    · exact fun hkept pre name y post heq hlast k hk => hkept y (.member hframe hnames heq hlast) k hk
  | none =>
    rw [hnames] at hj
    obtain ⟨js, hjs, rfl⟩ := Option.map_eq_some_iff.1 hj
    rw [JsonValue.proper_array]
    constructor
    · intro hproper y hy k hk
      cases hy with
      | element _ _ hmem => exact hproper k ((mem_allOf hjs).2 (List.mem_map.2 ⟨y, hmem, hk⟩))
      | member _ hsome => cases hnames.symm.trans hsome
      | cell hdata => exact absurd hdata hframe
    · intro hkept k hk
      obtain ⟨y, hy, hyk⟩ := List.mem_map.1 ((mem_allOf hjs).1 hk)
      exact hkept y (.element hframe hnames hy) k hyk

/-- One step: the text of `x` itself, and what becomes of what stays. -/
theorem proper_step (hparse : ∀ s, (parse s).isDiscarded ∨ (parse s).Proper) {x : Sexp} (h : WellFormed x)
    {j : JsonValue} (hj : sexpToJson parse nullAsObject x = some j) :
    j.Proper ↔ Parses parse x ∧ ∀ y, Kept x y → ∀ k, sexpToJson parse nullAsObject y = some k → k.Proper := by
  cases h with
  | null =>
    cases hj
    refine iff_of_true ?_ ⟨trivial, fun y hy => nomatch hy⟩
    cases nullAsObject with
    | true => exact .object List.Pairwise.nil fun m hm => nomatch hm
    | false => exact .null
  | raw bytes =>
    cases hj
    exact iff_of_true (.string _) ⟨trivial, fun y hy => nomatch hy⟩
  | other =>
    cases hj
    exact iff_of_true .null ⟨trivial, fun y hy => nomatch hy⟩
  | @atomic v a hdim =>
    rw [sexpToJson] at hj
    have hnone : ∀ y, Kept (.atomic v a) y → ∀ k, sexpToJson parse nullAsObject y = some k → k.Proper :=
      fun y hy => nomatch hy
    rw [and_iff_left hnone]
    cases htext : jsonText v a with
    | some text =>
      rw [htext] at hj
      cases hj
      constructor
      · intro hproper t ht
        cases htext.symm.trans ht
        exact hproper.not_discarded
      · exact fun hparses => (hparse text).resolve_left (hparses text htext)
    | none =>
      rw [htext] at hj
      refine iff_of_true (atomicToJson_proper hj) fun t ht => ?_
      cases htext.symm.trans ht
  | @list xs a hnames hframe h =>
    have hsome := (isSome_step parse nullAsObject (.list hnames hframe h)).1
      (Option.isSome_iff_exists.2 ⟨j, hj⟩)
    have hparses : Parses parse (.list xs a) := trivial
    rw [and_iff_right hparses]
    rw [sexpToJson] at hj
    split at hj
    · next hdata =>
      obtain ⟨names, heq⟩ := Option.isSome_iff_exists.1 (hframe hdata).1
      rw [heq, Option.getD_some] at hj
      exact frame_step hdata heq (hnames names heq) hj
    · next hdata =>
      rw [sexpsToJson_eq] at hj
      exact list_step hdata hj fun y hy => hsome.2 y (.element hdata hy)

/-- **What it gives is JSON where every `json` text that stays in it is.** -/
theorem proper_iff (hparse : ∀ s, (parse s).isDiscarded ∨ (parse s).Proper) {x : Sexp} (h : WellFormed x)
    {j : JsonValue} (hj : sexpToJson parse nullAsObject x = some j) : j.Proper ↔ Clean parse x := by
  induction x using part_induction generalizing j with
  | h x ih =>
    unfold Clean
    rw [proper_step hparse h hj, forall_reached]
    refine and_congr_right fun _ => forall₂_congr fun y hy => ?_
    have hformed := wellFormed_part h hy.part
    obtain ⟨k, hk⟩ := Option.isSome_iff_exists.1
      (((isSome_step parse nullAsObject h).1 (Option.isSome_iff_exists.2 ⟨j, hj⟩)).2 y hy.part)
    show _ ↔ Clean parse y
    rw [← ih y hy.part hformed hk]
    constructor
    · exact fun hall => hall k hk
    · intro hproper l hl
      cases hk.symm.trans hl
      exact hproper

/-- **An R value becomes valid JSON exactly where the frames in it fit and the `json` texts that stay are
JSON**, and then reads nothing outside a vector; `parse` is what does not throw. -/
theorem valid_iff (sp : JsonValue.Spelling) (hparse : ∀ s, (parse s).isDiscarded ∨ (parse s).Proper) {x : Sexp}
    (h : WellFormed x) :
    (∃ j, sexpToJson parse nullAsObject x = some j ∧ j.Proper ∧ (Json.read .strict (JsonValue.text sp j)).isSome) ↔
      InBounds x ∧ Clean parse x := by
  rw [← isSome_iff parse nullAsObject h]
  constructor
  · intro ⟨j, hj, hproper, _⟩
    exact ⟨Option.isSome_iff_exists.2 ⟨j, hj⟩, (proper_iff hparse h hj).1 hproper⟩
  · intro ⟨hsome, hclean⟩
    obtain ⟨j, hj⟩ := Option.isSome_iff_exists.1 hsome
    have hproper := (proper_iff hparse h hj).2 hclean
    exact ⟨j, hj, hproper, Option.isSome_iff_exists.2 ⟨_, JsonValue.read_text sp hproper⟩⟩

end

/-! ## Two frames -/

/-- Integers, and a list with a `json` string in it. -/
def mixedFrame : Sexp :=
  .list [.atomic (.integer [some 1, some 1]) {},
      .list [.null, .atomic (.character [some "\x7b\x7d"]) { classes := ["json"] }] {}]
    { names := some ["n", "l"], classes := ["data.frame"], rowNames := some (.integer 2) }

/-- A matrix of two columns before a vector, in two rows. -/
def matrixFrame : Sexp :=
  .list [.atomic (.logical [some true, some true, some true, some true]) { classes := ["AsIs"], dim := some [2, 2] },
      .atomic (.logical [some true, some false]) {}]
    { names := some ["m", "v"], classes := ["data.frame"], rowNames := some (.integer 2) }

/-- The text of a `json` string that is not JSON. -/
def openBrace : Sexp := .atomic (.character [some "\x7b"]) { classes := ["json"] }

/-- `json::parse` of an empty object, and of what is none. -/
def parseBraces (s : String) : JsonValue := if s = "\x7b\x7d" then .object [] else .discarded

theorem parseBraces_proper (s : String) : (parseBraces s).isDiscarded ∨ (parseBraces s).Proper := by
  unfold parseBraces
  split
  · exact .inr (.object List.Pairwise.nil fun m hm => nomatch hm)
  · exact .inl rfl

/-- Only ones are written. -/
def ones : JsonValue.Spelling where
  integer := fun _ => "1"
  finite := fun _ => "1.0"
  integer_isNumber := fun _ => by unfold Json.IsNumber; decide
  finite_isNumber := fun _ => by unfold Json.IsNumber; decide

theorem mixedFrame_wellFormed : WellFormed mixedFrame := by
  refine .list (fun names h => ?_) (fun _ => ⟨rfl, 2, rfl, ?_⟩) ?_
  · cases h
    rfl
  · simp only [List.forall_mem_cons]
    exact ⟨rfl, rfl, nofun⟩
  · simp only [List.forall_mem_cons]
    refine ⟨.atomic nofun, .list nofun (fun h => nomatch h) ?_, nofun⟩
    simp only [List.forall_mem_cons]
    exact ⟨.null, .atomic nofun, nofun⟩

theorem valid_iff_mixedFrame :
    (∃ j, sexpToJson parseBraces true mixedFrame = some j ∧ j.Proper ∧
      (Json.read .strict (JsonValue.text ones j)).isSome) ↔ InBounds mixedFrame ∧ Clean parseBraces mixedFrame :=
  valid_iff ones parseBraces_proper mixedFrame_wellFormed

theorem matrixFrame_wellFormed : WellFormed matrixFrame := by
  refine .list (fun names h => ?_) (fun _ => ⟨rfl, 2, rfl, ?_⟩) ?_
  · cases h
    rfl
  · simp only [List.forall_mem_cons]
    exact ⟨rfl, rfl, nofun⟩
  · simp only [List.forall_mem_cons]
    refine ⟨.atomic fun nrow ncol h => ?_, .atomic nofun, nofun⟩
    cases h
    rfl

/-- Of `matrixFrame` four rows are read; of `openBrace` no JSON is left. -/
theorem outside_or_discarded :
    (WellFormed matrixFrame ∧ sexpToJson parseBraces true matrixFrame = none) ∧
      WellFormed openBrace ∧ sexpToJson parseBraces true openBrace = some .discarded ∧
        Json.read .strict (JsonValue.text ones .discarded) = none := by
  refine ⟨⟨matrixFrame_wellFormed, rfl⟩, .atomic nofun, rfl, ?_⟩
  have htext : JsonValue.text ones .discarded = "<discarded>".toList := rfl
  rw [Json.read, htext, Json.lex_none (by decide) rfl]
  rfl

end Jovian.RJson
