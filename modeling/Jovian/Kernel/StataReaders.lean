import Jovian.Kernel.MataRows
import Mathlib.Data.List.Nodup

/-!
# StataReaders — when a page is what was asked for (`readData`)

* `isName_iff` — of the names of a dataset, those of at most 32 bytes pass.
* `stoll_g10` — the number of observations, as it is read from what Stata displays.
* `readData_eq` — a page, by what the code reads.
* **`pageRight_iff`** — it is the page that was asked for when no name is longer, the dataset has a variable, and the
  number of observations is displayed in full or not needed.
-/

namespace Jovian.StataData

open Utf8 (Bytes)

variable {D : Type} {st : Stata D} {ds : Dataset D}

/-! ## Names -/

theorem nameByte_high {u : UInt8} (h : 0x80 ≤ u.toNat) : (0x80 ≤ u || isAlnum u || u = 0x5F) = true := by
  have : (0x80 : UInt8) ≤ u := UInt8.le_iff_toNat_le.2 h
  simp [this]

theorem nameByte_low {c : Char} (hc : c.toNat < 0x80) (h : isNameChar c = true) :
    (0x80 ≤ c.toNat.toUInt8 || isAlnum c.toNat.toUInt8 || c.toNat.toUInt8 = 0x5F) = true ∧
      isDigit c.toNat.toUInt8 = c.isDigit := by
  have hofNat : c = Char.ofNat c.toNat := (Char.ofNat_toNat c).symm
  generalize c.toNat = n at hofNat hc
  subst hofNat
  revert h
  interval_cases n <;> decide

theorem nameByte_of_mem {c : Char} (hc : isNameChar c = true) {u : UInt8} (hu : u ∈ String.utf8EncodeChar c) :
    (0x80 ≤ u || isAlnum u || u = 0x5F) = true := by
  by_cases hascii : c.toNat < 0x80
  · rw [Utf8.utf8EncodeChar_ascii hascii, List.mem_singleton] at hu
    rw [hu]
    exact (nameByte_low hascii hc).1
  · exact nameByte_high (Utf8.le_of_mem_utf8EncodeChar (by omega) u hu)

/-- The first byte of a character is a digit where the character is. -/
theorem isDigit_first {c : Char} (hc : isNameChar c = true) (hdigit : c.isDigit = false) {u : UInt8} {us : Bytes}
    (h : String.utf8EncodeChar c = u :: us) : isDigit u = false := by
  by_cases hascii : c.toNat < 0x80
  · rw [Utf8.utf8EncodeChar_ascii hascii] at h
    rw [← (List.cons.inj h).1, (nameByte_low hascii hc).2, hdigit]
  · have hhigh := Utf8.le_of_mem_utf8EncodeChar (by omega) u (h ▸ List.mem_cons_self ..)
    have hgt : ¬ u ≤ 0x39 := fun hle => by
      have hle : u.toNat ≤ 0x39 := UInt8.le_iff_toNat_le.1 hle
      omega
    simp [isDigit, hgt]

/-- **Of the names of a dataset, those of at most 32 bytes pass.** -/
theorem isName_iff {name : String} (h : IsStataName name) :
    isName (bytes name.toList) = true ↔ (bytes name.toList).length ≤ 32 := by
  cases hname : name.toList with
  | nil => exact absurd hname h.nonempty
  | cons c cs =>
    have hall : ∀ d ∈ c :: cs, isNameChar d = true := hname ▸ h.all
    have hdigit := h.head c (by rw [hname]; rfl)
    cases hfirst : String.utf8EncodeChar c with
    | nil => exact absurd hfirst String.utf8EncodeChar_ne_nil
    | cons u us =>
      have hsplit : bytes (c :: cs) = u :: (us ++ bytes cs) := by
        show String.utf8EncodeChar c ++ bytes cs = _
        rw [hfirst]
        rfl
      have hbytes : (bytes (c :: cs)).all (fun u => 0x80 ≤ u || isAlnum u || u = 0x5F) = true := by
        rw [List.all_eq_true]
        intro v hv
        obtain ⟨d, hd, hv⟩ := List.mem_flatMap.1 hv
        exact nameByte_of_mem (hall d hd) hv
      rw [hsplit] at hbytes ⊢
      unfold isName
      simp only [isDigit_first (hall c (List.mem_cons_self ..)) hdigit hfirst, hbytes, Bool.or_false, decide_eq_true_eq]
      split
      · exact ⟨nofun, fun hle => by omega⟩
      · exact ⟨fun _ => by omega, fun _ => rfl⟩

/-! ## The number of observations -/

/-- What is read of the number that is displayed: from 10^9 on the first of four digits. -/
def displayed (n : Nat) : Nat :=
  if n < 10 ^ 9 then n
  else
    let q := nearest n (10 ^ (Nat.log 10 n - 3))
    if q = 10 ^ 4 then 1 else q / 10 ^ 3

/-- Four digits, or 10^4 where the nines round up. -/
theorem nearest_bounds {n : Nat} (hn : 10 ^ 9 ≤ n) :
    10 ^ 3 ≤ nearest n (10 ^ (Nat.log 10 n - 3)) ∧ nearest n (10 ^ (Nat.log 10 n - 3)) ≤ 10 ^ 4 := by
  have hlog : 9 ≤ Nat.log 10 n := Nat.le_log_of_pow_le (by decide) hn
  have hlow : 10 ^ Nat.log 10 n ≤ n := Nat.pow_log_le_self 10 (by omega)
  have hhigh : n < 10 ^ (Nat.log 10 n + 1) := Nat.lt_pow_succ_log_self (by decide) n
  have hsplit : 10 ^ Nat.log 10 n = 10 ^ 3 * 10 ^ (Nat.log 10 n - 3) := by
    rw [← Nat.pow_add]
    congr 1
    omega
  have hpos : 0 < 10 ^ (Nat.log 10 n - 3) := Nat.pow_pos (by decide)
  rw [Nat.pow_succ] at hhigh
  generalize 10 ^ (Nat.log 10 n - 3) = d at hsplit hpos
  rw [hsplit] at hlow hhigh
  constructor
  · apply (Nat.le_div_iff_mul_le hpos).2
    omega
  · apply Nat.le_of_lt_succ
    apply (Nat.div_lt_iff_lt_mul hpos).2
    omega

/-- Of an exponent form, the digit before the period. -/
theorem stoll_digit {d : Nat} (hd : d < 10) (cs : List Char) : stoll (Nat.toDigits 10 d ++ '.' :: cs) = d := by
  interval_cases d <;> rfl

theorem stoll_g10 (n : Nat) : stoll (g10 n) = displayed n := by
  unfold g10 displayed
  split
  · unfold stoll
    have hdigits : ∀ c ∈ Nat.toDigits 10 n, c.isDigit = true := fun c hc =>
      Nat.isDigit_of_mem_toDigits (by decide) (by decide) hc
    rw [List.takeWhile_eq_self_iff.2 hdigits, Nat.ofDigitChars_ten_toDigits]
  · next hn =>
    have hbounds := nearest_bounds (Nat.le_of_not_lt hn)
    simp only [List.append_assoc, List.cons_append, List.nil_append]
    split
    · simp only [show 10 ^ 3 / 10 ^ 3 = 1 from rfl]
      exact stoll_digit (by decide) _
    · apply stoll_digit
      omega

theorem displayed_lt {n : Nat} (hn : 10 ^ 9 ≤ n) : displayed n < n := by
  have hbounds := nearest_bounds hn
  unfold displayed
  rw [if_neg (by omega)]
  simp only
  split <;> omega

theorem displayed_le (n : Nat) : displayed n ≤ n := by
  by_cases hn : n < 10 ^ 9
  · exact Nat.le_of_eq (if_pos hn)
  · exact Nat.le_of_lt (displayed_lt (by omega))

/-! ## The page that was asked for -/

/-- The variables a request names, in its order; all of them when it names none. -/
def asked (ds : Dataset D) (request : Request) : List (Variable D) :=
  match request.names.getD [] with
  | [] => ds.varlist
  | names => names.filterMap ds.find

def Request.first (request : Request) : Int := max 1 request.start

/-- The observation that the count goes up to. -/
def Request.upTo (request : Request) : Int := request.first + max 0 (min request.count kMaxRows) - 1

/-- The last observation that is asked for, before the first where none is. -/
def Request.last (ds : Dataset D) (request : Request) : Int := min (ds.observations : Int) request.upTo

/-- The variables a request names are the dataset's. -/
def Request.Valid (ds : Dataset D) (request : Request) : Prop :=
  ∀ name ∈ request.names.getD [], name ∈ ds.varlist.map Variable.name

/-- The page holds what was asked for, naming all variables is naming none, and the two readers agree. -/
structure PageRight (st : Stata D) (ds : Dataset D) (request : Request) : Prop where
  rows : ∀ plugin, ∃ page, readData st plugin ds request = .ok page ∧ page.names = (asked ds request).map Variable.name ∧
    page.rows = valuesOf st request.formatted (asked ds request) request.first.toNat (request.last ds).toNat
  all : request.names = some (ds.varlist.map Variable.name) → ∀ plugin,
    (readData st plugin ds request).map Page.rows = (readData st plugin ds { request with names := none }).map Page.rows
  readers : ∀ first last, inDataset ds first last = true →
    pluginRows true ds (asked ds request) first last = mataRows st ds (asked ds request) first last false

theorem find_self (hds : ds.Valid) {v : Variable D} (hv : v ∈ ds.varlist) : ds.find v.name = some v := by
  cases hfind : ds.find v.name with
  | none => exact absurd (List.find?_eq_none.1 hfind v hv) (by simp)
  | some w =>
    have hw : w ∈ ds.varlist := List.mem_of_find?_eq_some hfind
    have hname : w.name = v.name := by simpa using List.find?_some hfind
    exact congrArg some (List.inj_on_of_nodup_map hds.nodup hw hv hname)

/-- Variables are found by their names. -/
theorem filterMap_find (hds : ds.Valid) {varlist : List (Variable D)} (h : ∀ v ∈ varlist, v ∈ ds.varlist) :
    (varlist.map Variable.name).filterMap ds.find = varlist := by
  induction varlist with
  | nil => rfl
  | cons v varlist ih =>
    rw [List.map_cons, List.filterMap_cons_some (find_self hds (h v (List.mem_cons_self ..))),
      ih fun w hw => h w (List.mem_cons_of_mem _ hw)]

/-- **The variables that are asked for** are found, in the order of their names. -/
theorem asked_spec (hds : ds.Valid) {request : Request} (hrequest : request.Valid ds) :
    (∀ v ∈ asked ds request, v ∈ ds.varlist) ∧
      (asked ds request).map Variable.name =
        (if request.names.getD [] = [] then ds.varlist.map Variable.name else request.names.getD []) := by
  unfold asked
  unfold Request.Valid at hrequest
  generalize request.names.getD [] = names at hrequest
  split
  · exact ⟨fun v hv => hv, rfl⟩
  · next hnames =>
    obtain ⟨varlist, hvarlist, rfl⟩ : ∃ varlist : List (Variable D), (∀ v ∈ varlist, v ∈ ds.varlist) ∧
        varlist.map Variable.name = names := by
      clear hnames
      induction names with
      | nil => exact ⟨[], by simp, rfl⟩
      | cons name names ih =>
        obtain ⟨v, hv, rfl⟩ := List.mem_map.1 (hrequest name (List.mem_cons_self ..))
        obtain ⟨varlist, hvarlist, rfl⟩ := ih fun n hn => hrequest n (List.mem_cons_of_mem _ hn)
        exact ⟨v :: varlist, by simpa using ⟨hv, hvarlist⟩, rfl⟩
    rw [filterMap_find hds hvarlist]
    refine ⟨hvarlist, ?_⟩
    rw [if_neg hnames]

theorem asked_all (hds : ds.Valid) {request : Request} (hall : request.names = some (ds.varlist.map Variable.name)) :
    asked ds request = ds.varlist := by
  unfold asked
  rw [hall, Option.getD_some]
  split
  · rfl
  · exact filterMap_find hds fun v hv => hv

theorem asked_eq_nil_iff (hds : ds.Valid) {request : Request} (hrequest : request.Valid ds) :
    asked ds request = [] ↔ ds.varlist = [] := by
  obtain ⟨hmem, hnames⟩ := asked_spec hds hrequest
  constructor
  · intro hnil
    rw [hnil] at hnames
    split at hnames
    · exact List.map_eq_nil_iff.1 hnames.symm
    · next hne => exact absurd hnames.symm hne
  · intro hnil
    apply List.eq_nil_iff_forall_not_mem.2
    intro v hv
    have := hmem v hv
    rw [hnil] at this
    cases this

/-! ## What is read -/

/-- The rows that are read: up to the number of observations that is displayed. -/
def rowsRead (st : Stata D) (ds : Dataset D) (request : Request) : List (List (Scalar D)) :=
  if ds.varlist = [] then []
  else valuesOf st request.formatted (asked ds request) request.first.toNat
    (min (displayed ds.observations : Int) request.upTo).toNat

theorem length_valuesOf (st : Stata D) (formatted : Bool) (varlist : List (Variable D)) (first last : Nat) :
    (valuesOf st formatted varlist first last).length = last + 1 - first := by
  simp [valuesOf, between]

theorem valuesOf_empty (st : Stata D) (formatted : Bool) (varlist : List (Variable D)) {first last : Nat}
    (h : last < first) : valuesOf st formatted varlist first last = [] := by
  apply List.eq_nil_of_length_eq_zero
  rw [length_valuesOf]
  omega

theorem readRows_eq (hst : st.Documented ds) (hds : ds.Valid) {varlist : List (Variable D)}
    (hvarlist : ∀ v ∈ varlist, v ∈ ds.varlist) {first last : Nat} (hin : inDataset ds first last = true)
    (plugin formatted : Bool) : readRows st plugin ds (varlist.map Variable.name) formatted first last =
      .ok (valuesOf st formatted varlist first last) := by
  have hmata := mataRows_eq hst hds hvarlist hin formatted
  have hread : ∀ {read : Option (List (List (Scalar D)))}, read = none ∨ read = some (valuesOf st formatted varlist first last) →
      read.or (mataRows st ds varlist first last formatted) = some (valuesOf st formatted varlist first last) := by
    intro read hread
    obtain rfl | rfl := hread
    · exact hmata
    · rfl
  simp only [readRows, filterMap_find hds hvarlist]
  rw [hread]
  cases formatted with
  | true => exact .inl rfl
  | false =>
    cases plugin with
    | true => exact .inr (pluginRows_eq st hin)
    | false => exact .inl rfl

theorem notAName_none {names : List String} (h : ∀ name ∈ names, isName (bytes name.toList) = true) :
    notAName names = none := by
  have hfind : names.find? (fun name => !isName (bytes name.toList)) = none :=
    List.find?_eq_none.2 fun name hname => by simp [h name hname]
  rw [notAName, hfind]
  rfl

/-- **A page is read**, when every name is short enough. -/
theorem readData_ok (hst : st.Documented ds) (hds : ds.Valid) {request : Request} (hrequest : request.Valid ds)
    (hshort : ∀ name ∈ request.names.getD [], (bytes name.toList).length ≤ 32) (plugin : Bool) :
    ∃ page, readData st plugin ds request = .ok page ∧ page.names = (asked ds request).map Variable.name ∧
      page.rows = rowsRead st ds request := by
  obtain ⟨hmem, hnames⟩ := asked_spec hds hrequest
  have hname : ∀ name ∈ request.names.getD [], isName (bytes name.toList) = true := by
    intro name hn
    obtain ⟨v, hv, rfl⟩ := List.mem_map.1 (hrequest name hn)
    exact (isName_iff (hds.names v hv)).2 (hshort _ hn)
  have hvariable : noVariable ds (request.names.getD []) = none := by
    have hfind : (request.names.getD []).find? (fun name => (ds.find name).isNone) = none := by
      apply List.find?_eq_none.2
      intro name hn
      obtain ⟨v, hv, rfl⟩ := List.mem_map.1 (hrequest name hn)
      simp [find_self hds hv]
    rw [noVariable, hfind]
    rfl
  unfold readData
  simp only [notAName_none hname, mataNames_eq hds, ← hnames, stoll_g10, hvariable]
  show ∃ page, (if _ ∧ request.first ≤ min (displayed ds.observations : Int) request.upTo then _ else _) = _ ∧ _
  by_cases hnil : ds.varlist = []
  · -- without a variable nothing is asked for
    have hasked := (asked_eq_nil_iff hds hrequest).2 hnil
    rw [if_neg (by simp [hasked])]
    refine ⟨_, rfl, rfl, ?_⟩
    rw [rowsRead, if_pos hnil]
  · have hasked : (asked ds request).map Variable.name ≠ [] := fun h =>
      hnil ((asked_eq_nil_iff hds hrequest).1 (List.map_eq_nil_iff.1 h))
    have hfirst : 1 ≤ request.first := le_max_left ..
    by_cases hle : request.first ≤ min (displayed ds.observations : Int) request.upTo
    · have hin : inDataset ds request.first.toNat (min (displayed ds.observations : Int) request.upTo).toNat = true := by
        have := displayed_le ds.observations
        simp only [inDataset, Bool.and_eq_true, decide_eq_true_eq]
        omega
      have hread := readRows_eq hst hds hmem hin plugin request.formatted
      simp only [Request.first, Request.upTo] at hread
      rw [if_pos ⟨hasked, hle⟩, hread]
      refine ⟨_, rfl, rfl, ?_⟩
      rw [rowsRead, if_neg hnil]
      rfl
    · rw [if_neg fun h => hle h.2]
      refine ⟨_, rfl, rfl, ?_⟩
      rw [rowsRead, if_neg hnil, valuesOf_empty]
      omega

/-- A name that is longer is refused. -/
theorem readData_error (st : Stata D) (hds : ds.Valid) {request : Request} (hrequest : request.Valid ds) {name : String}
    (hname : name ∈ request.names.getD []) (hlong : 32 < (bytes name.toList).length) (plugin : Bool) :
    ∃ message, readData st plugin ds request = .error message := by
  obtain ⟨v, hv, rfl⟩ := List.mem_map.1 (hrequest name hname)
  have hrefused : isName (bytes v.name.toList) = false := by
    cases h : isName (bytes v.name.toList) with
    | false => rfl
    | true =>
      have := (isName_iff (hds.names v hv)).1 h
      omega
  have hfind : ∃ message, notAName (request.names.getD []) = some message := by
    cases h : (request.names.getD []).find? (fun name => !isName (bytes name.toList)) with
    | none => exact absurd (List.find?_eq_none.1 h _ hname) (by simp [hrefused])
    | some found => exact ⟨_, by rw [notAName, h]; rfl⟩
  obtain ⟨message, hmessage⟩ := hfind
  refine ⟨message, ?_⟩
  unfold readData
  simp only [hmessage]
  rfl

/-! ## When it is the page that was asked for -/

/-- No name is longer than 32 bytes; there is a variable, and the number of observations is displayed in full or large
enough as it is read, unless no observation is asked for. -/
structure Readable (ds : Dataset D) (request : Request) : Prop where
  names : ∀ name ∈ request.names.getD [], (bytes name.toList).length ≤ 32
  nonempty : ds.varlist ≠ [] ∨ request.last ds < request.first
  observations : ds.observations < 10 ^ 9 ∨ request.last ds < request.first ∨
    request.upTo ≤ (displayed ds.observations : Int)

/-- What is read is what was asked for in these cases only. -/
theorem rowsRead_eq_iff (st : Stata D) {request : Request} :
    rowsRead st ds request =
        valuesOf st request.formatted (asked ds request) request.first.toNat (request.last ds).toNat ↔
      (ds.varlist ≠ [] ∨ request.last ds < request.first) ∧
        (ds.observations < 10 ^ 9 ∨ request.last ds < request.first ∨
          request.upTo ≤ (displayed ds.observations : Int)) := by
  have hfirst : 1 ≤ request.first := le_max_left ..
  have hle := displayed_le ds.observations
  by_cases hempty : request.last ds < request.first
  · -- no observation is asked for, and none is read
    have hlast : request.last ds = min (ds.observations : Int) request.upTo := rfl
    have hasked : (request.last ds).toNat < request.first.toNat := by omega
    have hread : (min (displayed ds.observations : Int) request.upTo).toNat < request.first.toNat := by omega
    rw [rowsRead, valuesOf_empty _ _ _ hasked, valuesOf_empty _ _ _ hread, ite_self]
    simp [hempty]
  · have hlast : request.last ds = min (ds.observations : Int) request.upTo := rfl
    have hlength := length_valuesOf st request.formatted (asked ds request)
    by_cases hnil : ds.varlist = []
    · -- a row for each observation, though it holds nothing
      rw [rowsRead, if_pos hnil]
      refine ⟨fun h => ?_, fun h => absurd hnil (h.1.resolve_right hempty)⟩
      have := congrArg List.length h
      rw [hlength, List.length_nil] at this
      omega
    · rw [rowsRead, if_neg hnil]
      by_cases hshown : ds.observations < 10 ^ 9
      · have hdisplayed : displayed ds.observations = ds.observations := if_pos hshown
        rw [hdisplayed, ← hlast]
        exact ⟨fun _ => ⟨.inl hnil, .inl hshown⟩, fun _ => rfl⟩
      · have hlt := displayed_lt (Nat.le_of_not_lt hshown)
        constructor
        · intro h
          have := congrArg List.length h
          rw [hlength, hlength] at this
          exact ⟨.inl hnil, .inr (.inr (by omega))⟩
        · intro h
          have hupTo := (h.2.resolve_left hshown).resolve_left hempty
          have hsame : min (displayed ds.observations : Int) request.upTo = request.last ds := by omega
          rw [hsame]

/-- **When a page is what was asked for.** -/
theorem pageRight_iff (hst : st.Documented ds) (hds : ds.Valid) {request : Request} (hrequest : request.Valid ds) :
    PageRight st ds request ↔ Readable ds request := by
  constructor
  · intro h
    obtain ⟨page, hpage, -, hrows⟩ := h.rows true
    have hnames : ∀ name ∈ request.names.getD [], (bytes name.toList).length ≤ 32 := by
      intro name hname
      by_contra hlong
      obtain ⟨message, hmessage⟩ := readData_error st hds hrequest hname (by omega) true
      rw [hmessage] at hpage
      cases hpage
    obtain ⟨page', hpage', -, hrows'⟩ := readData_ok hst hds hrequest hnames true
    obtain rfl : page = page' := Except.ok.inj (hpage.symm.trans hpage')
    obtain ⟨hnonempty, hobservations⟩ := (rowsRead_eq_iff st).1 (hrows'.symm.trans hrows)
    exact ⟨hnames, hnonempty, hobservations⟩
  · intro h
    have hread := readData_ok hst hds hrequest h.names
    have hrows := (rowsRead_eq_iff st).2 ⟨h.nonempty, h.observations⟩
    refine ⟨fun plugin => ?_, fun hall plugin => ?_, fun first last hin => ?_⟩
    · obtain ⟨page, hpage, hnames, hpageRows⟩ := hread plugin
      exact ⟨page, hpage, hnames, hpageRows.trans hrows⟩
    · have hnone : Request.Valid ds { request with names := none } := by
        intro name hname
        cases hname
      obtain ⟨page, hpage, -, hpageRows⟩ := hread plugin
      obtain ⟨page', hpage', -, hpageRows'⟩ := readData_ok hst hds hnone (by simp) plugin
      have hasked : asked ds request = asked ds { request with names := none } := asked_all hds hall
      rw [hpage, hpage']
      show Except.ok page.rows = Except.ok page'.rows
      rw [hpageRows, hpageRows']
      unfold rowsRead
      rw [hasked]
      rfl
    · rw [pluginRows_eq st hin, mataRows_eq hst hds (asked_spec hds hrequest).1 hin]

/-! ### A dataset -/

/-- Three numbers, counted in hundredths, as Stata writes and reads them. -/
def hundredths : Stata Int where
  strofreal _ x := List.replicate 19 ' ' ++
    (if x = 50 then ".5".toList else if x = -75 then "-.75".toList else "42".toList)
  vlmap _ _ := ""
  strtod text := if text = "0.5".toList then 50 else if text = "-0.75".toList then -75 else 4200
  inRange _ := true

theorem writes_hundredths {x : Int} (hx : x = 50 ∨ x = -75 ∨ x = 4200) : hundredths.Writes x := by
  obtain rfl | rfl | rfl := hx
  · exact ⟨"0.5", by unfold Json.IsNumber; decide, by decide, rfl, .inr (.inl ⟨['5'], by decide, by decide⟩)⟩
  · exact ⟨"-0.75", by unfold Json.IsNumber; decide, by decide, rfl, .inr (.inr ⟨['7', '5'], by decide, by decide⟩)⟩
  · exact ⟨"42", by unfold Json.IsNumber; decide, by decide, rfl, .inl (by decide)⟩

theorem hundredths_documented {ds : Dataset Int} (h : ∀ v ∈ ds.varlist, ∀ value, v.column = .numeric value →
    ∀ obs x, value obs = .value x → x = 50 ∨ x = -75 ∨ x = 4200) : hundredths.Documented ds where
  writes v hv value hcolumn obs x hx := writes_hundredths (h v hv value hcolumn obs x hx)
  strofreal _ x := by
    show '\x00' ∉ List.replicate 19 ' ' ++ if x = 50 then _ else if x = -75 then _ else _
    split
    · decide
    · split <;> decide
  vlmap _ _ := by
    show '\x00' ∉ "".toList
    decide

/-- Numbers with a missing value among them, and strings. -/
def prices : Dataset Int where
  observations := 3
  varlist := [
    { name := "price", format := "%9.0g", valueLabel := "",
      column := .numeric fun obs => if obs = 1 then .value 50 else if obs = 2 then .missing ⟨3, by decide⟩ else .value (-75) },
    { name := "make", format := "%18s", valueLabel := "",
      column := .string fun obs => if obs = 1 then "a \"b\"\n" else "c" }]

theorem isStataName_of_all {name : String} (h : name.toList ≠ [] ∧ name.toList.length ≤ 32 ∧
    (name.toList.head?.all fun c => !c.isDigit) = true ∧ name.toList.all isNameChar = true) : IsStataName name where
  nonempty := h.1
  length := h.2.1
  head c hc := by simpa [hc] using h.2.2.1
  all := List.all_eq_true.1 h.2.2.2

theorem prices_valid : prices.Valid where
  names v hv := by
    apply isStataName_of_all
    simp only [prices, List.mem_cons, List.not_mem_nil, or_false] at hv
    obtain rfl | rfl := hv <;> decide
  nodup := by decide
  text v hv value hcolumn obs := by
    simp only [prices, List.mem_cons, List.not_mem_nil, or_false] at hv
    obtain rfl | rfl := hv
    · cases hcolumn
    · obtain rfl := Column.string.inj hcolumn
      simp only
      split <;> decide

theorem prices_documented : hundredths.Documented prices := by
  apply hundredths_documented
  intro v hv value hcolumn obs x hx
  simp only [prices, List.mem_cons, List.not_mem_nil, or_false] at hv
  obtain rfl | rfl := hv
  · obtain rfl := Column.numeric.inj hcolumn
    simp only at hx
    split at hx
    · exact .inl (Number.value.inj hx).symm
    · split at hx
      · cases hx
      · exact .inr (.inl (Number.value.inj hx).symm)
  · cases hcolumn

/-- Both variables, the last first, from observation 2 on. -/
def pricesPage : Request where
  names := some ["make", "price"]
  start := 2

theorem pricesPage_valid : pricesPage.Valid prices := by
  unfold Request.Valid
  simp [pricesPage, prices]

theorem pageRight_iff_prices : PageRight hundredths prices pricesPage :=
  (pageRight_iff prices_documented prices_valid pricesPage_valid).2
    ⟨by simp [pricesPage]; decide, .inl (by simp [prices]), .inl (by decide)⟩

/-- A name of 20 characters, which are 40 bytes. -/
def accented : String := String.ofList (List.replicate 20 'é')

theorem accented_toList : accented.toList = List.replicate 20 'é' := String.toList_ofList ..
theorem accented_isStataName : IsStataName accented where
  nonempty := by simp [accented_toList]
  length := by simp [accented_toList]
  head := by
    rw [accented_toList]
    intro c hc
    obtain rfl := Option.some.inj hc
    rfl
  all := by
    rw [accented_toList]
    intro c hc
    rw [List.eq_of_mem_replicate hc]
    rfl

theorem accented_length : (bytes accented.toList).length = 40 := by
  have hsize : (String.utf8EncodeChar 'é').length = 2 := rfl
  simp [bytes, accented_toList, -String.length_utf8EncodeChar, hsize]

def accentedPrices : Dataset Int where
  observations := 1
  varlist := [{ name := accented, format := "%9.0g", valueLabel := "", column := .numeric fun _ => .value 50 }]

theorem accentedPrices_valid : accentedPrices.Valid where
  names v hv := by
    obtain rfl := List.mem_singleton.1 hv
    exact accented_isStataName
  nodup := List.nodup_singleton _
  text v hv value hcolumn obs := by
    obtain rfl := List.mem_singleton.1 hv
    cases hcolumn

theorem accentedPrices_documented : hundredths.Documented accentedPrices := by
  apply hundredths_documented
  intro v hv value hcolumn obs x hx
  obtain rfl := List.mem_singleton.1 hv
  obtain rfl := Column.numeric.inj hcolumn
  exact .inl (Number.value.inj hx).symm

/-- **A name of the dataset is refused.** -/
theorem accented_refused : accentedPrices.Valid ∧ hundredths.Documented accentedPrices ∧
    Request.Valid accentedPrices { names := some [accented] } ∧
    ¬ PageRight hundredths accentedPrices { names := some [accented] } := by
  have hrequest : Request.Valid accentedPrices { names := some [accented] } := fun name hname => hname
  refine ⟨accentedPrices_valid, accentedPrices_documented, hrequest, fun h => ?_⟩
  obtain ⟨page, hpage, -⟩ := h.rows true
  have hlong : 32 < (bytes accented.toList).length := by rw [accented_length]; decide
  obtain ⟨message, hmessage⟩ := readData_error hundredths accentedPrices_valid hrequest
    (List.mem_singleton.2 rfl) hlong true
  rw [hmessage] at hpage
  cases hpage

end Jovian.StataData
