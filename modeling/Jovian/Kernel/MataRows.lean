import Jovian.Kernel.MataJson

/-!
# MataRows — the rows of a page, as Mata writes them and as they are read (`callisto_rows`)

A row is put together of its columns 32 at a time (`per`); the pieces are joined at the end.

* **`rowTexts_eq`** — the pieces joined are the row's cells joined.
* **`mataRows_eq`**, **`pluginRows_eq`** — both readers give the values of the variables, observation for observation.
-/

namespace Jovian.StataData

variable {D : Type}

/-! ## Joining -/

theorem invtokens_append {xs ys : List (List Char)} (hx : xs ≠ []) (hy : ys ≠ []) :
    invtokens (xs ++ ys) = invtokens xs ++ ',' :: invtokens ys := by
  induction xs with
  | nil => exact absurd rfl hx
  | cons x xs ih =>
    cases xs with
    | nil =>
      show invtokens (x :: ys) = invtokens [x] ++ ',' :: invtokens ys
      rw [invtokens_cons x hy, show invtokens [x] = x from List.intercalate_singleton]
    | cons x' xs =>
      have hrest := ih (List.cons_ne_nil _ _)
      show invtokens (x :: (x' :: xs ++ ys)) = _
      rw [invtokens_cons x (by simp), invtokens_cons x (List.cons_ne_nil _ _), hrest]
      simp

/-- One more piece, as a part of a row gets it. -/
theorem invtokens_concat (xs : List (List Char)) (x : List Char) :
    invtokens (xs ++ [x]) = invtokens xs ++ (if xs = [] then [] else [',']) ++ x := by
  by_cases hxs : xs = []
  · subst hxs
    show invtokens [x] = x
    exact List.intercalate_singleton
  · rw [invtokens_append hxs (List.cons_ne_nil _ _), if_neg hxs, show invtokens [x] = x from List.intercalate_singleton]
    simp

/-! ## The blocks of a row -/

/-- The cells of part `p` of a row. -/
def block (cells : List (List Char)) (p : Nat) : List (List Char) := (cells.drop (per * p)).take per

/-- The part that the next cell goes to. -/
theorem block_concat (cells : List (List Char)) (c : List Char) :
    block (cells ++ [c]) (cells.length / per) = block cells (cells.length / per) ++ [c] := by
  have hle : per * (cells.length / per) ≤ cells.length := Nat.mul_div_le ..
  have hlt : cells.length - per * (cells.length / per) < per := by
    unfold per
    omega
  unfold block
  rw [List.drop_append_of_le_length hle, List.take_of_length_le (by simp; omega),
    List.take_of_length_le (by simp; omega)]

/-- The other parts stay as they are. -/
theorem block_concat_of_ne {cells : List (List Char)} (c : List Char) {p : Nat} (hp : p ≠ cells.length / per) :
    block (cells ++ [c]) p = block cells p := by
  unfold block
  by_cases hfull : per * p + per ≤ cells.length
  · -- a part that is full
    rw [List.drop_append_of_le_length (by omega), List.take_append_of_le_length (by simp; omega)]
  · -- one that nothing has been put in
    have hempty : cells.length + 1 ≤ per * p := by
      unfold per at *
      omega
    rw [List.drop_of_length_le (by simp; omega), List.drop_of_length_le (by omega)]

theorem block_eq_nil_iff (cells : List (List Char)) :
    block cells (cells.length / per) = [] ↔ cells.length % per = 0 := by
  unfold block per
  rw [← List.length_eq_zero_iff]
  simp only [List.length_take, List.length_drop]
  omega

/-- **The parts of a row joined are its cells joined.** -/
theorem invtokens_blocks {P : Nat} {cells : List (List Char)} (hle : cells.length ≤ per * (P + 1))
    (hlt : per * P < cells.length) :
    invtokens ((List.range (P + 1)).map fun p => invtokens (block cells p)) = invtokens cells := by
  induction P generalizing cells with
  | zero =>
    have hall : block cells 0 = cells := List.take_of_length_le (by simpa using hle)
    show invtokens [invtokens (block cells 0)] = _
    rw [hall]
    exact List.intercalate_singleton
  | succ P ih =>
    have hlong : per < cells.length := by
      unfold per at *
      omega
    have hrestLength : (cells.drop per).length = cells.length - per := List.length_drop
    have hrest : invtokens ((List.range (P + 1)).map fun p => invtokens (block (cells.drop per) p)) =
        invtokens (cells.drop per) := ih (by unfold per at *; omega) (by unfold per at *; omega)
    have hshift : ∀ p, block cells (p + 1) = block (cells.drop per) p := by
      intro p
      unfold block
      rw [List.drop_drop, Nat.mul_succ, Nat.add_comm]
    have hfirst : cells.take per ≠ [] := by
      intro h
      have := congrArg List.length h
      simp [per] at this
      simp [this] at hlong
    have hlast : cells.drop per ≠ [] := by
      intro h
      have := congrArg List.length h
      simp at this
      omega
    rw [List.range_succ_eq_map, List.map_cons, List.map_map]
    show invtokens (invtokens (cells.take per) :: (List.range (P + 1)).map fun p => invtokens (block cells (p + 1))) = _
    simp only [hshift]
    rw [invtokens_cons _ (by simp), hrest, ← invtokens_append hfirst hlast, List.take_append_drop]

/-! ## All rows at once -/

/-- Row `i` of the columns. -/
def cellsAt (columns : List (List (List Char))) (i : Nat) : List (List Char) := columns.map fun cells => cells.getD i []

/-- The parts of the rows that these columns are in. -/
def partsFor (P n : Nat) (columns : List (List (List Char))) : List (List (List Char)) :=
  (List.range P).map fun p => (List.range n).map fun i => invtokens (block (cellsAt columns i) p)

theorem addColumn_partsFor (P : Nat) {n : Nat} (columns : List (List (List Char))) {cells : List (List Char)}
    (hcells : cells.length = n) :
    addColumn (partsFor P n columns) (columns.length + 1) cells = partsFor P n (columns ++ [cells]) := by
  have hlength : ∀ i, (cellsAt columns i).length = columns.length := fun i => List.length_map ..
  have hat : ∀ i, cellsAt (columns ++ [cells]) i = cellsAt columns i ++ [cells.getD i []] := fun i => by simp [cellsAt]
  have hpart : (columns.length + 1 + per - 1) / per - 1 = columns.length / per := by
    unfold per
    omega
  apply List.ext_getElem?
  intro p
  unfold addColumn
  rw [hpart, List.getElem?_modify]
  unfold partsFor
  simp only [List.getElem?_map]
  by_cases hp : p < P
  · rw [List.getElem?_range hp]
    simp only [Option.map_some]
    split
    · next hthis =>
      -- the part that the column goes to
      apply congrArg some
      apply List.ext_getElem (by simp [hcells])
      intro i hin _
      have hi : i < cells.length := by
        simp at hin
        omega
      subst hthis
      have hblock := block_concat (cellsAt columns i) (cells.getD i [])
      have hempty := block_eq_nil_iff (cellsAt columns i)
      rw [hlength] at hblock hempty
      simp only [List.getElem_zipWith, List.getElem_map, List.getElem_range, hat, hblock, invtokens_concat, hempty,
        Nat.add_sub_cancel]
      rw [List.getD_eq_getElem?_getD, List.getElem?_eq_getElem hi]
      rfl
    · next hother =>
      apply congrArg some
      apply List.map_congr_left
      intro i _
      rw [hat, block_concat_of_ne _ (by rw [hlength]; exact fun h => hother h.symm)]
  · rw [List.getElem?_eq_none (by simpa using hp)]
    simp

/-- What the columns leave, one after the other. -/
theorem addColumns_partsFor (P : Nat) {n : Nat} (done : List (List (List Char))) {columns : List (List (List Char))}
    (hcolumns : ∀ cells ∈ columns, cells.length = n) :
    addColumns (partsFor P n done) (done.length + 1) columns = partsFor P n (done ++ columns) := by
  induction columns generalizing done with
  | nil => simp [addColumns]
  | cons cells columns ih =>
    have hstep := addColumn_partsFor P done (hcolumns cells (List.mem_cons_self ..))
    have hrest := ih (done ++ [cells]) fun c hc => hcolumns c (List.mem_cons_of_mem _ hc)
    rw [List.length_append, List.append_assoc] at hrest
    unfold addColumns
    rw [hstep]
    exact hrest

/-- **The rows of a page** are those of its columns. -/
theorem rowTexts_eq {n : Nat} {columns : List (List (List Char))} (hcolumns : ∀ cells ∈ columns, cells.length = n) :
    rowTexts n columns = (List.range n).map fun i => invtokens (cellsAt columns i) := by
  have hlength : ∀ i, (cellsAt columns i).length = columns.length := fun i => List.length_map ..
  have hempty : List.replicate (max 1 ((columns.length + per - 1) / per)) (List.replicate n []) =
      partsFor (max 1 ((columns.length + per - 1) / per)) n [] := by
    have hnil : ∀ p i, invtokens (block (cellsAt [] i) p) = [] := fun p i => by simp [cellsAt, block, invtokens]
    simp only [partsFor, hnil, List.map_const', List.length_range]
  have hparts := addColumns_partsFor (max 1 ((columns.length + per - 1) / per)) [] hcolumns
  have hone : (partsFor (max 1 ((columns.length + per - 1) / per)) n columns).length =
      max 1 ((columns.length + per - 1) / per) := by simp [partsFor]
  simp only [List.length_nil, Nat.zero_add, List.nil_append] at hparts
  simp only [rowTexts]
  rw [hempty, hparts, hone]
  split
  · next hP =>
    have hall : ∀ i, block (cellsAt columns i) 0 = cellsAt columns i := by
      intro i
      apply List.take_of_length_le
      rw [Nat.mul_zero, List.drop_zero, hlength]
      unfold per at *
      omega
    rw [hP]
    show (List.range n).map (fun i => invtokens (block (cellsAt columns i) 0)) = _
    simp only [hall]
  · next hP =>
    apply List.map_congr_left
    intro i hi
    have hi : i < n := List.mem_range.1 hi
    have hpieces : partsOf (partsFor (max 1 ((columns.length + per - 1) / per)) n columns) i =
        (List.range ((columns.length - 1) / per + 1)).map fun p => invtokens (block (cellsAt columns i) p) := by
      have hP' : max 1 ((columns.length + per - 1) / per) = (columns.length - 1) / per + 1 := by
        unfold per at *
        omega
      simp only [partsOf, partsFor, hP', List.map_map]
      apply List.map_congr_left
      intro p _
      simp [List.getD_eq_getElem?_getD, hi]
    rw [hpieces]
    apply invtokens_blocks
    · rw [hlength]
      unfold per at *
      omega
    · rw [hlength]
      unfold per at *
      omega

/-! ## What Stata promises -/

open Json (IsNumber)

/-- `%21.0g` writes a number that is read as the same one, but for the zero before its period. -/
def Stata.Writes (st : Stata D) (x : D) : Prop :=
  ∃ t : String, IsNumber t ∧ st.strtod t.toList = x ∧ st.inRange t = true ∧
    (strtrim (st.strofreal "%21.0g" x) = t.toList ∨
      (∃ r, t.toList = '0' :: '.' :: r ∧ strtrim (st.strofreal "%21.0g" x) = '.' :: r) ∨
      (∃ r, t.toList = '-' :: '0' :: '.' :: r ∧ strtrim (st.strofreal "%21.0g" x) = '-' :: '.' :: r))

structure Stata.Documented (st : Stata D) (ds : Dataset D) : Prop where
  writes : ∀ v ∈ ds.varlist, ∀ value, v.column = .numeric value → ∀ obs x, value obs = .value x → st.Writes x
  /-- No text of a number holds a NUL. -/
  strofreal : ∀ format x, '\x00' ∉ st.strofreal format x
  vlmap : ∀ label x, '\x00' ∉ (st.vlmap label x).toList

/-- A letter, a digit or `_`. -/
def isNameChar (c : Char) : Bool := 0x80 ≤ c.toNat || c.isAlphanum || c = '_'

/-- A name as Stata has it: at most 32 characters, whatever their bytes. -/
structure IsStataName (name : String) : Prop where
  nonempty : name.toList ≠ []
  length : name.toList.length ≤ 32
  head : ∀ c, name.toList.head? = some c → c.isDigit = false
  all : ∀ c ∈ name.toList, isNameChar c = true

structure Dataset.Valid (ds : Dataset D) : Prop where
  names : ∀ v ∈ ds.varlist, IsStataName v.name
  nodup : (ds.varlist.map Variable.name).Nodup
  /-- No string holds binary content. -/
  text : ∀ v ∈ ds.varlist, ∀ value, v.column = .string value → ∀ obs, '\x00' ∉ (value obs).toList

/-! ## Values -/

/-- A number of a page that is not formatted: the system missing value is null. -/
def Number.scalar : Number D → Scalar D
  | .value x => .number x
  | .missing code => if code.val = 0 then .null else .text (String.ofList (missingText code))

/-- The value of an observation, as a page has it. -/
def valueAt (st : Stata D) (formatted : Bool) (obs : Nat) (v : Variable D) : Scalar D :=
  match v.column with
  | .string value => .text (value obs)
  | .numeric value =>
    if formatted then .text (String.ofList (shownNumber st v (value obs))) else (value obs).scalar

/-- A row for each observation, a value for each variable. -/
def valuesOf (st : Stata D) (formatted : Bool) (varlist : List (Variable D)) (first last : Nat) : List (List (Scalar D)) :=
  (between first last).map fun obs => varlist.map (valueAt st formatted obs)

theorem nul_missingText (code : Fin 27) : '\x00' ∉ missingText code := by
  revert code
  decide

theorem jstrv_missingText (code : Fin 27) : jstrv (missingText code) = ['"'] ++ missingText code ++ ['"'] := by
  revert code
  decide

theorem mem_strtrim {c : Char} {text : List Char} (h : c ∈ strtrim text) : c ∈ text := by
  have h := List.mem_reverse.1 h
  have h := List.mem_reverse.1 ((List.dropWhile_sublist _).mem h)
  exact (List.dropWhile_sublist _).mem h

variable {st : Stata D} {ds : Dataset D}

theorem nul_shownNumber (hst : st.Documented ds) (v : Variable D) (x : Number D) : '\x00' ∉ shownNumber st v x := by
  unfold shownNumber
  generalize hlabeled : (if v.valueLabel = "" then "" else st.vlmap v.valueLabel x) = labeled
  show '\x00' ∉ if labeled = "" then _ else _
  split
  · intro h
    cases x with
    | value x => exact hst.strofreal _ _ (mem_strtrim h)
    | missing code => exact nul_missingText code (mem_strtrim h)
  · rw [← hlabeled]
    split
    · simp
    · exact hst.vlmap _ _

/-- A number begins with a digit, or with its sign and a digit. -/
theorem number_begins {t : String} (h : IsNumber t) : t.toList.take 1 ≠ ['.'] ∧ t.toList.take 2 ≠ ['-', '.'] := by
  unfold IsNumber Json.scanNumber at h
  split at h
  · next cs hcs =>
    obtain ⟨r, hr, heq⟩ := Option.map_eq_some_iff.1 h
    obtain ⟨c, ds, hds, hdigit⟩ := Json.unsignedNumber_head (show _ = some (r.1, r.2) from hr)
    have hlist := (Prod.mk.inj heq).1
    rw [← hlist, hds]
    refine ⟨by simp, fun hdot => ?_⟩
    obtain rfl : c = '.' := by simpa using hdot
    exact absurd hdigit (by decide)
  · obtain ⟨c, ds, hds, hdigit⟩ := Json.unsignedNumber_head h
    rw [hds]
    refine ⟨fun hdot => ?_, fun hsign => ?_⟩
    · obtain rfl : c = '.' := by simpa using hdot
      exact absurd hdigit (by decide)
    · obtain rfl : c = '-' := by simpa using (List.cons.inj hsign).1
      exact absurd hdigit (by decide)

/-- A number in JSON. -/
theorem jnumv_reads {x : Number D} (hx : ∀ y, x = .value y → st.Writes y) :
    ∃ j, Reads st.inRange (jnumv st x) j ∧ scalarOf st j = x.scalar := by
  cases x with
  | value y =>
    obtain ⟨t, ht, hread, hrange, hwritten⟩ := hx y rfl
    have htext : leadingZero (strtrim (st.strofreal "%21.0g" y)) = t.toList := by
      obtain hplain | ⟨r, htr, hr⟩ | ⟨r, htr, hr⟩ := hwritten
      · obtain ⟨hdot, hsign⟩ := number_begins ht
        simp only [leadingZero, hplain, hdot, hsign, if_false]
      · rw [hr, htr]
        rfl
      · rw [hr, htr]
        rfl
    refine ⟨.number t, ?_, ?_⟩
    · show Reads st.inRange (leadingZero (strtrim (st.strofreal "%21.0g" y))) _
      rw [htext]
      exact .number ht hrange
    · show Scalar.number (st.strtod t.toList) = _
      rw [hread]
      rfl
  | missing code =>
    simp only [jnumv, Number.scalar]
    split
    · exact ⟨.null, .null, rfl⟩
    · rw [← jstrv_missingText]
      exact ⟨_, .string (nul_missingText code), rfl⟩

/-- **A cell is read as its value.** -/
theorem cell_reads (hst : st.Documented ds) (hds : ds.Valid) {v : Variable D} (hv : v ∈ ds.varlist) (formatted : Bool)
    (obs : Nat) : ∃ j, Reads st.inRange (cell st formatted v obs) j ∧ scalarOf st j = valueAt st formatted obs v := by
  unfold cell valueAt
  cases hcolumn : v.column with
  | string value =>
    refine ⟨_, .string (hds.text v hv value hcolumn obs), ?_⟩
    show Scalar.text (String.ofList (value obs).toList) = .text (value obs)
    rw [String.ofList_toList]
  | numeric value =>
    cases formatted with
    | true => exact ⟨_, .string (nul_shownNumber hst v (value obs)), rfl⟩
    | false => exact jnumv_reads fun x hx => hst.writes v hv value hcolumn obs x hx

/-! ## Mata -/

/-- What is read of a list, where each of its elements is. -/
theorem exists_reads {α β : Type} {R : List Char → Json → Prop} {f : α → List Char} {g : Json → β} {h : α → β}
    {xs : List α} (hxs : ∀ x ∈ xs, ∃ j, R (f x) j ∧ g j = h x) :
    ∃ js, List.Forall₂ R (xs.map f) js ∧ js.map g = xs.map h := by
  induction xs with
  | nil => exact ⟨[], .nil, rfl⟩
  | cons x xs ih =>
    obtain ⟨j, hj, hgj⟩ := hxs x (List.mem_cons_self ..)
    obtain ⟨js, hjs, hgjs⟩ := ih fun y hy => hxs y (List.mem_cons_of_mem _ hy)
    refine ⟨j :: js, .cons hj hjs, ?_⟩
    rw [List.map_cons, List.map_cons, hgj, hgjs]

theorem callistoRows_eq (varlist : List (Variable D)) (first last : Nat) (formatted : Bool) :
    callistoRows st varlist first last formatted = callistoWrite (['['] ++ invtokens ((between first last).map fun obs =>
      ['['] ++ invtokens (varlist.map fun v => cell st formatted v obs) ++ [']']) ++ [']']) := by
  have hlength : ∀ cells ∈ varlist.map (fun v => (between first last).map (cell st formatted v)),
      cells.length = last + 1 - first := by
    intro cells hcells
    obtain ⟨v, -, rfl⟩ := List.mem_map.1 hcells
    simp [between]
  have hrows : between first last = (List.range (last + 1 - first)).map (first + ·) :=
    List.range'_eq_map_range ..
  simp only [callistoRows]
  rw [rowTexts_eq hlength, List.map_map]
  congr 4
  rw [hrows, List.map_map]
  apply List.map_congr_left
  intro i hi
  have hi : i < last + 1 - first := List.mem_range.1 hi
  have hcells : cellsAt (varlist.map fun v => (between first last).map (cell st formatted v)) i =
      varlist.map fun v => cell st formatted v (first + i) := by
    unfold cellsAt
    rw [List.map_map]
    apply List.map_congr_left
    intro v _
    simp [hrows, hi]
  rw [hrows] at hcells
  simp only [Function.comp_apply, hcells]

/-- **The rows Mata writes** are read as the values. -/
theorem mataRows_eq (hst : st.Documented ds) (hds : ds.Valid) {varlist : List (Variable D)}
    (hvarlist : ∀ v ∈ varlist, v ∈ ds.varlist) {first last : Nat} (hin : inDataset ds first last = true)
    (formatted : Bool) : mataRows st ds varlist first last formatted = some (valuesOf st formatted varlist first last) := by
  have hrow : ∀ obs ∈ between first last, ∃ j,
      Reads st.inRange (['['] ++ invtokens (varlist.map fun v => cell st formatted v obs) ++ [']']) j ∧
        rowOf st j = varlist.map (valueAt st formatted obs) := by
    intro obs _
    obtain ⟨js, hjs, hvalues⟩ := exists_reads fun v hv => cell_reads hst hds (hvarlist v hv) formatted obs
    exact ⟨.array js, .array hjs, hvalues⟩
  obtain ⟨rows, hrows, hvalues⟩ := exists_reads hrow
  unfold mataRows
  rw [if_pos hin, callistoRows_eq, (Reads.array hrows).mataJson]
  exact congrArg some hvalues

/-- **All variables, as Stata names them.** -/
theorem mataNames_eq (hds : ds.Valid) : mataNames st ds = ds.varlist.map Variable.name := by
  have hnul : ∀ v ∈ ds.varlist, '\x00' ∉ v.name.toList := fun v hv h =>
    absurd ((hds.names v hv).all _ h) (by decide)
  have hread : ∀ v ∈ ds.varlist, ∃ j, Reads st.inRange (jstrv v.name.toList) j ∧ j = .string v.name := by
    intro v hv
    refine ⟨_, .string (hnul v hv), ?_⟩
    rw [String.ofList_toList]
  obtain ⟨js, hjs, heq⟩ := exists_reads (g := id) (h := fun v : Variable D => Json.string v.name) hread
  have hwritten : jstrs (ds.varlist.map Variable.name) =
      ['['] ++ invtokens (ds.varlist.map fun v => jstrv v.name.toList) ++ [']'] := by
    unfold jstrs
    rw [List.map_map]
    split
    · next h =>
      rw [List.map_eq_nil_iff.1 h]
      rfl
    · rfl
  rw [List.map_id] at heq
  unfold mataNames
  rw [hwritten, (Reads.array hjs).mataJson, heq]
  simp only [List.filterMap_map]
  exact List.filterMap_eq_map.symm ▸ rfl

/-! ## The plugin -/

theorem missingCode_missingBits (code : Fin 27) : missingCode (missingBits code) = code.val := by
  revert code
  decide

theorem missing_eq (c : RowCollector D) (code : Fin 27) :
    c.missing code.val = c.push (Number.missing code : Number D).scalar := by
  simp only [RowCollector.missing, Number.scalar, missingText]
  by_cases hcode : code.val = 0
  · rw [if_pos hcode, if_pos hcode]
  · rw [if_neg hcode, if_neg hcode, if_neg hcode]

theorem sinkValue_eq (st : Stata D) (obs : Nat) (c : RowCollector D) (v : Variable D) :
    sinkValue obs c v = c.push (valueAt st false obs v) := by
  unfold sinkValue valueAt
  cases v.column with
  | string value =>
    show c.push (.text (String.ofList (decoded (bytes (value obs).toList)))) = c.push (.text (value obs))
    rw [decoded_bytes, String.ofList_toList]
  | numeric value =>
    show _ = c.push (value obs).scalar
    simp only
    cases value obs with
    | value x => rfl
    | missing code =>
      show c.missing (missingCode (missingBits code)) = _
      rw [missingCode_missingBits]
      exact missing_eq c code

/-- A row, value by value. -/
theorem foldl_sinkValue (st : Stata D) (obs : Nat) (c : RowCollector D) (varlist : List (Variable D)) :
    varlist.foldl (sinkValue obs) c = { c with row := c.row ++ varlist.map (valueAt st false obs) } := by
  induction varlist generalizing c with
  | nil => simp
  | cons v varlist ih =>
    rw [List.foldl_cons, ih, sinkValue_eq st]
    simp [RowCollector.push]

theorem stataCall_rows (st : Stata D) (varlist : List (Variable D)) (first last : Nat) :
    (stataCall varlist first last).rows = valuesOf st false varlist first last := by
  have hrun : ∀ (obs : List Nat) (rows : List (List (Scalar D))),
      obs.foldl (fun c obs => (varlist.foldl (sinkValue obs) c).rowEnd) { rows, row := [] } =
        ({ rows := rows ++ obs.map fun obs => varlist.map (valueAt st false obs), row := [] } : RowCollector D) := by
    intro obs
    induction obs with
    | nil => simp
    | cons o obs ih =>
      intro rows
      rw [List.foldl_cons, foldl_sinkValue st]
      show obs.foldl _ ({ rows := rows ++ [[] ++ varlist.map (valueAt st false o)], row := [] } : RowCollector D) = _
      rw [ih]
      simp
  unfold stataCall
  rw [hrun]
  rfl

/-- **The rows the plugin hands over** are the values. -/
theorem pluginRows_eq (st : Stata D) {varlist : List (Variable D)} {first last : Nat} (hin : inDataset ds first last = true) :
    pluginRows true ds varlist first last = some (valuesOf st false varlist first last) := by
  unfold pluginRows
  rw [Bool.true_and, if_pos hin, stataCall_rows st]

end Jovian.StataData
