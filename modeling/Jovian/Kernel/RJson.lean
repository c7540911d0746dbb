import Jovian.Lib.JsonValue

/-!
# RJson — R values as JSON and back (`routine.cpp`)

`sexpToJson` makes JSON of an R value, as jsonlite does; `jsonToSexp` is the way back. Every read of
a vector's element is one that can fail: `none` is a read outside the vector.
-/

namespace Jovian.RJson

/-! ## R values -/

/-- The elements of an atomic vector; `none` is `NA`. -/
inductive Atomic where
  /-- `LGLSXP` -/
  | logical (xs : List (Option Bool))
  /-- `INTSXP` -/
  | integer (xs : List (Option Int))
  /-- `REALSXP` -/
  | double (xs : List Double)
  /-- `STRSXP` -/
  | character (xs : List (Option String))
deriving DecidableEq

/-- `row.names`: a frame's own, or only how many. -/
inductive RowNames where
  | integer (n : Nat)
  | character (names : List (Option String))
deriving DecidableEq

structure Attributes where
  names : Option (List String) := none
  classes : List String := []
  dim : Option (List Nat) := none
  levels : Option (List (Option String)) := none
  rowNames : Option RowNames := none
deriving DecidableEq

/-- `Rf_inherits` -/
def Attributes.inherits (a : Attributes) (what : String) : Bool := a.classes.any (· = what)

inductive Sexp where
  /-- `R_NilValue` -/
  | null
  | atomic (v : Atomic) (a : Attributes)
  /-- `RAWSXP` -/
  | raw (bytes : List UInt8)
  /-- `VECSXP` -/
  | list (xs : List Sexp) (a : Attributes)
  /-- A function. -/
  | other

/-- `Rf_translateCharUTF8` -/
def translate (s : Option String) : String := s.getD "NA"

def Atomic.length : Atomic → Nat
  | .logical xs => xs.length
  | .integer xs => xs.length
  | .double xs => xs.length
  | .character xs => xs.length

/-- `Rf_xlength` -/
def Sexp.xlength : Sexp → Nat
  | .null => 0
  | .atomic v _ => v.length
  | .raw bytes => bytes.length
  | .list xs _ => xs.length
  | .other => 1

/-! ## A vector's elements -/

/-- Element `i` of an atomic vector, a factor's where there are levels. -/
def atomicElement (v : Atomic) (i : Nat) (levels : Option (List (Option String))) : Option JsonValue :=
  match v with
  | .logical xs => xs[i]?.map fun x => (x.map JsonValue.boolean).getD .null
  | .integer xs => xs[i]?.bind fun x =>
    match x, levels with
    | none, _ => some .null
    | some n, none => some (.integer n)
    | some n, some levels =>
      if 1 ≤ n ∧ n ≤ levels.length then (levels[(n - 1).toNat]?).map fun s => .string (translate s)
      else some .null
  | .double xs => xs[i]?.map fun x =>
    match x with
    | .finite q => .float (.finite q)
    | _ => .null
  | .character xs => xs[i]?.map fun s => (s.map JsonValue.string).getD .null

/-- The elements one after the other, where none is outside. -/
def allOf {α : Type} : List (Option α) → Option (List α)
  | [] => some []
  | none :: _ => none
  | some x :: xs => (allOf xs).map (x :: ·)

theorem allOf_isSome {α : Type} {os : List (Option α)} : (allOf os).isSome ↔ ∀ o ∈ os, o.isSome := by
  induction os with
  | nil => simp [allOf]
  | cons o os ih =>
    cases o with
    | none => simp [allOf]
    | some x => simpa [allOf] using ih

theorem mem_allOf {α : Type} {os : List (Option α)} {xs : List α} (h : allOf os = some xs) {x : α} :
    x ∈ xs ↔ some x ∈ os := by
  induction os generalizing xs with
  | nil =>
    cases h
    simp
  | cons o os ih =>
    cases o with
    | none => cases h
    | some y =>
      obtain ⟨ys, hys, rfl⟩ := Option.map_eq_some_iff.1 h
      simp [ih hys]

theorem allOf_map {α β : Type} {f : α → Option β} {g : α → β} {xs : List α}
    (h : ∀ x ∈ xs, f x = some (g x)) : allOf (xs.map f) = some (xs.map g) := by
  induction xs with
  | nil => rfl
  | cons x xs ih =>
    rw [List.map_cons, h x (List.mem_cons_self ..), allOf, ih fun y hy => h y (List.mem_cons_of_mem _ hy)]
    rfl

/-- All of a list's elements, read one after the other. -/
theorem allOf_range {α β : Type} (xs : List α) (f : α → β) :
    allOf ((List.range xs.length).map fun i => xs[i]?.map f) = some (xs.map f) := by
  have hread : ((List.range xs.length).map fun i => xs[i]?.map f) = xs.map fun x => some (f x) := by
    apply List.ext_getElem
    · simp
    · intro i _ hi
      simp only [List.length_map] at hi
      simp [hi]
  rw [hread]
  exact allOf_map fun _ _ => rfl

/-- The levels of a factor. -/
def levelsOf (a : Attributes) : Option (List (Option String)) :=
  if a.inherits "factor" then a.levels else none

/-- The rows of a matrix. -/
def matrixToJson (v : Atomic) (levels : Option (List (Option String))) (nrow ncol : Nat) :
    Option JsonValue :=
  (allOf ((List.range nrow).map fun r =>
    (allOf ((List.range ncol).map fun c => atomicElement v (r + c * nrow) levels)).map JsonValue.array)).map
    JsonValue.array

def atomicToJson (v : Atomic) (a : Attributes) : Option JsonValue :=
  match a.dim with
  | some [nrow, ncol] => matrixToJson v (levelsOf a) nrow ncol
  | _ =>
    if v.length = 1 ∧ a.inherits "AsIs" = false then atomicElement v 0 (levelsOf a)
    else (allOf ((List.range v.length).map fun i => atomicElement v i (levelsOf a))).map JsonValue.array

/-- The text of a string that is JSON as it is. -/
def jsonText (v : Atomic) (a : Attributes) : Option String :=
  match v with
  | .character [s] => if a.inherits "json" then some (translate s) else none
  | _ => none

/-! ## Bytes -/

def base64Chars : List Char :=
  "ABCDEFGHIJKLMNOPQRSTUVWXYZabcdefghijklmnopqrstuvwxyz0123456789+/".toList

def base64Char (v : Nat) : Char := base64Chars.getD (v % 64) '='

def base64Encode : List UInt8 → List Char
  | a :: b :: c :: rest =>
    let v := a.toNat * 65536 + b.toNat * 256 + c.toNat
    base64Char (v / 262144) :: base64Char (v / 4096) :: base64Char (v / 64) :: base64Char v ::
      base64Encode rest
  | [a, b] =>
    let v := a.toNat * 65536 + b.toNat * 256
    [base64Char (v / 262144), base64Char (v / 4096), base64Char (v / 64), '=']
  | [a] =>
    let v := a.toNat * 65536
    [base64Char (v / 262144), base64Char (v / 4096), '=', '=']
  | [] => []

/-! ## Data frames -/

/-- A column, with what its elements become where it is a list. -/
inductive Column where
  | list (cells : List (Option JsonValue))
  | atomic (v : Atomic) (a : Attributes)
  | other

/-- `row[name] = ...`, of a column that has something in this row. -/
def setCell (r : Nat) (row : List (String × JsonValue)) (name : String) :
    Column → Option (List (String × JsonValue))
  | .list cells => (cells[r]?).bind fun cell => cell.map fun j => Members.set name j row
  | .atomic v a => (atomicElement v r (levelsOf a)).map fun j =>
    match j with
    | .null => row
    | j => Members.set name j row
  | .other => some row

/-- `row["_row"]`, where the frame has row names of its own. -/
def rowStart (rowNames : Option RowNames) (r : Nat) : List (String × JsonValue) :=
  match rowNames with
  | some (.character names) =>
    match names[r]? with
    | some s => Members.set "_row" ((s.map JsonValue.string).getD .null) []
    | none => []
  | _ => []

/-- The columns from one on, each with its name. -/
def setCells (r : Nat) (row : List (String × JsonValue)) :
    List String → List Column → Option (List (String × JsonValue))
  | _, [] => some row
  | [], _ :: _ => none
  | name :: names, column :: columns =>
    (setCell r row name column).bind fun row => setCells r row names columns

/-- As many rows as the first column has elements. -/
def frameRows (columns : List Sexp) : Nat := (columns.head?.map Sexp.xlength).getD 0

/-- Row by row. -/
def frameToJson (names : List String) (rowNames : Option RowNames) (rows : Nat) (columns : List Column) :
    Option JsonValue :=
  (allOf ((List.range rows).map fun r =>
    (setCells r (rowStart rowNames r) names columns).map JsonValue.object)).map JsonValue.array

/-! ## Lists -/

/-- `out[names[i]] = ...`, one element after the other. -/
def namedToJson (members : List (String × JsonValue)) :
    List String → List (Option JsonValue) → Option (List (String × JsonValue))
  | _, [] => some members
  | [], _ :: _ => none
  | name :: names, x :: xs => x.bind fun j => namedToJson (Members.set name j members) names xs

def listToJson (names : Option (List String)) (xs : List (Option JsonValue)) : Option JsonValue :=
  match names with
  | some names => (namedToJson [] names xs).map JsonValue.object
  | none => (allOf xs).map JsonValue.array

/-! ## From R -/

mutual

/-- `sexpToJson`; `parse` is `json::parse` that does not throw. -/
def sexpToJson (parse : String → JsonValue) (nullAsObject : Bool) : Sexp → Option JsonValue
  | .null => some (if nullAsObject then .object [] else .null)
  | .atomic v a =>
    match jsonText v a with
    | some text => some (parse text)
    | none => atomicToJson v a
  | .raw bytes => some (.string (String.ofList (base64Encode bytes)))
  | .list xs a =>
    if a.inherits "data.frame" then
      frameToJson (a.names.getD []) a.rowNames (frameRows xs) (columns parse nullAsObject xs)
    else listToJson a.names (sexpsToJson parse nullAsObject xs)
  | .other => some .null

def sexpsToJson (parse : String → JsonValue) (nullAsObject : Bool) : List Sexp → List (Option JsonValue)
  | [] => []
  | x :: xs => sexpToJson parse nullAsObject x :: sexpsToJson parse nullAsObject xs

def column (parse : String → JsonValue) (nullAsObject : Bool) : Sexp → Column
  | .list xs _ => .list (sexpsToJson parse nullAsObject xs)
  | .atomic v a => .atomic v a
  | _ => .other

def columns (parse : String → JsonValue) (nullAsObject : Bool) : List Sexp → List Column
  | [] => []
  | x :: xs => column parse nullAsObject x :: columns parse nullAsObject xs

end

theorem sexpsToJson_eq (parse : String → JsonValue) (nullAsObject : Bool) (xs : List Sexp) :
    sexpsToJson parse nullAsObject xs = xs.map (sexpToJson parse nullAsObject) := by
  induction xs with
  | nil => rfl
  | cons x xs ih => rw [sexpsToJson, ih, List.map_cons]

theorem columns_eq (parse : String → JsonValue) (nullAsObject : Bool) (xs : List Sexp) :
    columns parse nullAsObject xs = xs.map (column parse nullAsObject) := by
  induction xs with
  | nil => rfl
  | cons x xs ih => rw [columns, ih, List.map_cons]

/-- hera's `to_json()`: `null` is its second argument, where that is one string. -/
def toJson (parse : String → JsonValue) (sp : JsonValue.Spelling) (x : Sexp) (null : Option String) :
    Option (List Char) :=
  let nullAsObject := null ≠ some "null"
  (sexpToJson parse nullAsObject x).map (JsonValue.text sp)

/-! ## To R -/

def isNull : JsonValue → Bool
  | .null => true
  | _ => false

def isBoolean : JsonValue → Bool
  | .boolean _ => true
  | _ => false

def isString : JsonValue → Bool
  | .string _ => true
  | _ => false

def isNumber : JsonValue → Bool
  | .integer _ | .float _ => true
  | _ => false

/-- `is_primitive` -/
def isPrimitive : JsonValue → Bool
  | .array _ | .object _ | .discarded => false
  | _ => true

/-- A whole number an R integer holds (`INT_MIN` is `NA_integer_`). -/
def fitsInteger : JsonValue → Bool
  | .integer n => -2147483648 < n ∧ n ≤ 2147483647
  | _ => false

/-- `mkCharUtf8`, an R error where a NUL is in the text; one of 2^31 bytes, which no R string has, is
not modelled. -/
def mkCharUtf8 (s : String) : Option String := if '\x00' ∈ s.toList then none else some s

/-- As `as.character()` writes a scalar; `g15` is `%.15g`. -/
def scalarText (g15 : Double → String) : JsonValue → String
  | .string s => s
  | .boolean b => if b then "TRUE" else "FALSE"
  | .float x => g15 x
  | .integer n => toString n
  | _ => ""

/-- `e.get<double>()`, true as 1 and null as `NA_REAL`. -/
def toReal : JsonValue → Double
  | .boolean b => .finite (if b then 1 else 0)
  | .integer n => .finite (toDouble n)
  | .float x => x
  | _ => .nan

def toLogical : JsonValue → Option Bool
  | .boolean b => some b
  | _ => none

def toInteger : JsonValue → Option Int
  | .integer n => some n
  | _ => none

/-- An element of a character vector. -/
def toCharacter (g15 : Double → String) (e : JsonValue) : Option (Option String) :=
  if isNull e then some none else (mkCharUtf8 (scalarText g15 e)).map some

/-- The type that holds all of an array's scalars. -/
inductive VectorType where
  | logical | integer | double | character
deriving DecidableEq

def vectorType (xs : List JsonValue) : VectorType :=
  if xs.all fun e => isNull e || isBoolean e then .logical
  else if xs.all fun e => isNull e || fitsInteger e then .integer
  else if xs.all fun e => isNull e || isNumber e then .double
  else if xs.all fun e => isNull e || isString e then .character
  else if xs.any isString then .character
  else .double

/-- An array of scalars. -/
def vectorToSexp (g15 : Double → String) (xs : List JsonValue) : Option Sexp :=
  match vectorType xs with
  | .logical => some (.atomic (.logical (xs.map toLogical)) {})
  | .integer => some (.atomic (.integer (xs.map toInteger)) {})
  | .double => some (.atomic (.double (xs.map toReal)) {})
  | .character => (allOf (xs.map (toCharacter g15))).map fun ss => .atomic (.character ss) {}

mutual

/-- `jsonToSexp`; `none` is an R error. -/
def jsonToSexp (g15 : Double → String) : JsonValue → Option Sexp
  | .boolean b => some (.atomic (.logical [some b]) {})
  | .integer n =>
    if fitsInteger (.integer n) then some (.atomic (.integer [some n]) {})
    else some (.atomic (.double [.finite (toDouble n)]) {})
  | .float x => some (.atomic (.double [x]) {})
  | .string s => (mkCharUtf8 s).map fun s => .atomic (.character [some s]) {}
  | .object ms => do
    let xs ← membersToSexp g15 ms
    return .list (xs.map Prod.snd) { names := some (xs.map Prod.fst) }
  | .array xs =>
    if xs ≠ [] ∧ xs.all isPrimitive then vectorToSexp g15 xs
    else (elementsToSexp g15 xs).map fun xs => .list xs {}
  | .null | .discarded => some .null

def elementsToSexp (g15 : Double → String) : List JsonValue → Option (List Sexp)
  | [] => some []
  | x :: xs => do
    let y ← jsonToSexp g15 x
    let ys ← elementsToSexp g15 xs
    return y :: ys

def membersToSexp (g15 : Double → String) : List (String × JsonValue) → Option (List (String × Sexp))
  | [] => some []
  | m :: ms => do
    let y ← jsonToSexp g15 m.2
    let name ← mkCharUtf8 m.1
    let ys ← membersToSexp g15 ms
    return (name, y) :: ys

end

attribute [grind =] sexpToJson jsonToSexp

end Jovian.RJson
