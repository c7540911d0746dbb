import Mathlib.Data.Nat.Log
import Jovian.Lib.JsonText
import Jovian.Kernel.Utf8Decoder

/-!
# StataData — a page of a Stata dataset (`StataInterpreter::readData`)

Two readers: the plugin (`stata_call`) hands each value to the kernel, and Mata (`callisto_rows`)
writes all of them as one JSON text, which the kernel reads. What Stata's own functions do is a
parameter (`Stata`) or a definition of its own here (`%10.0g` of a whole number, `subinstr`, ...).
-/

namespace Jovian.StataData

open Utf8 (Bytes)

/-! ## Datasets -/

/-- Missing value 0 is `.`, 1 to 26 are `.a` to `.z`. -/
inductive Number (D : Type) where
  | value (x : D)
  | missing (code : Fin 27)

/-- The values of a variable, by observation. -/
inductive Column (D : Type) where
  | numeric (value : Nat → Number D)
  | string (value : Nat → String)

structure Variable (D : Type) where
  name : String
  format : String
  /-- `st_varvaluelabel`, which may be empty. -/
  valueLabel : String
  column : Column D

structure Dataset (D : Type) where
  /-- `_N` -/
  observations : Nat
  varlist : List (Variable D)

/-- What Stata, Mata and the C library do with numbers. -/
structure Stata (D : Type) where
  /-- `strofreal(x, format)` -/
  strofreal : String → D → List Char
  /-- `st_vlmap(label, x)`, empty for a value without a text. -/
  vlmap : String → Number D → String
  /-- The double a JSON number is read as. -/
  strtod : List Char → D
  /-- Whether it is one. -/
  inRange : String → Bool

/-- A value of a row that is sent. -/
inductive Scalar (D : Type) where
  | number (x : D)
  | null
  | text (s : String)

variable {D : Type}

def Dataset.find (ds : Dataset D) (name : String) : Option (Variable D) :=
  ds.varlist.find? fun v => v.name = name

/-- Observations `first/last` -/
def between (first last : Nat) : List Nat := List.range' first (last + 1 - first)

/-! ## Text -/

/-- The bytes of a text. -/
def bytes (cs : List Char) : Bytes := cs.flatMap String.utf8EncodeChar

/-- `utf8()` -/
def utf8 (bs : Bytes) : Bytes :=
  let r := Utf8Decoder.push [] bs
  r.2 ++ Utf8Decoder.finish r.1

/-- Valid UTF-8, as text. -/
def decoded (bs : Bytes) : List Char := (Utf8.decode (utf8 bs)).getD []

def isDigit (c : UInt8) : Bool := 0x30 ≤ c && c ≤ 0x39

def isAlnum (c : UInt8) : Bool := isDigit c || (0x41 ≤ c && c ≤ 0x5A) || (0x61 ≤ c && c ≤ 0x7A)

def isName : Bytes → Bool
  | [] => false
  | c :: cs =>
    if 32 < (c :: cs).length || isDigit c then false
    else (c :: cs).all fun u => 0x80 ≤ u || isAlnum u || u = 0x5F

/-! ## The plugin -/

/-- The 27 missing values are 2^1023 times 1 + k/4096. -/
def missingBits (code : Fin 27) : UInt64 := (0x7FE0000000000000 : UInt64) + (UInt64.ofNat code.val <<< 40)

def missingCode (bits : UInt64) : Nat :=
  let code := ((bits >>> 40) &&& 0xfff).toNat
  if code ≤ 26 then code else 0

/-- `RowCollector` -/
structure RowCollector (D : Type) where
  rows : List (List (Scalar D)) := []
  row : List (Scalar D) := []

namespace RowCollector

def push (c : RowCollector D) (x : Scalar D) : RowCollector D := { c with row := c.row ++ [x] }

def number (c : RowCollector D) (x : D) : RowCollector D := c.push (.number x)

def missing (c : RowCollector D) (code : Nat) : RowCollector D :=
  if code = 0 then c.push .null
  else c.push (.text (String.ofList ['.', Char.ofNat ('a'.toNat + code - 1)]))

def text (c : RowCollector D) (bs : Bytes) : RowCollector D := c.push (.text (String.ofList (decoded bs)))

def rowEnd (c : RowCollector D) : RowCollector D := { rows := c.rows ++ [c.row], row := [] }

end RowCollector

/-- One value to the sink. -/
def sinkValue (obs : Nat) (c : RowCollector D) (v : Variable D) : RowCollector D :=
  match v.column with
  | .string value => c.text (bytes (value obs).toList)
  | .numeric value =>
    match value obs with
    | .value x => c.number x
    | .missing code => c.missing (missingCode (missingBits code))

def stataCall (varlist : List (Variable D)) (first last : Nat) : RowCollector D :=
  (between first last).foldl (fun c obs => (varlist.foldl (sinkValue obs) c).rowEnd) {}

/-- Stata refuses an `in` that is not in the dataset. -/
def inDataset (ds : Dataset D) (first last : Nat) : Bool := 1 ≤ first && last ≤ ds.observations

/-- `plugin` where there is one. -/
def pluginRows (plugin : Bool) (ds : Dataset D) (varlist : List (Variable D)) (first last : Nat) :
    Option (List (List (Scalar D))) :=
  if plugin && inDataset ds first last then some (stataCall varlist first last).rows else none

/-! ## Mata -/

/-- `subinstr(text, c, by, .)` -/
def subinstr (c : Char) (by' : List Char) (text : List Char) : List Char :=
  text.flatMap fun x => if x = c then by' else [x]

def strtrim (text : List Char) : List Char :=
  ((text.dropWhile fun c => c = ' ').reverse.dropWhile fun c => c = ' ').reverse

/-- `strofreal` of a missing value, in every format. -/
def missingText (code : Fin 27) : List Char :=
  if code.val = 0 then ['.'] else ['.', Char.ofNat ('a'.toNat + code.val - 1)]

def Stata.strofrealNumber (st : Stata D) (format : String) : Number D → List Char
  | .value x => st.strofreal format x
  | .missing code => missingText code

/-- A cell of `callisto_jstrv`. -/
def jstrv (s : List Char) : List Char :=
  ['"'] ++ subinstr '"' ['\\', '"'] (subinstr '\\' ['\\', '\\'] s) ++ ['"']

/-- `.5` is `0.5` and `-.5` is `-0.5` in JSON. -/
def leadingZero (s : List Char) : List Char :=
  let s := if s.take 1 = ['.'] then '0' :: s else s
  if s.take 2 = ['-', '.'] then ['-', '0'] ++ s.drop 1 else s

/-- A cell of `callisto_jnumv`. -/
def jnumv (st : Stata D) (x : Number D) : List Char :=
  let s := leadingZero (strtrim (st.strofrealNumber "%21.0g" x))
  -- every missing value is overwritten, and `.` once more
  match x with
  | .value _ => s
  | .missing code => if code.val = 0 then "null".toList else ['"'] ++ missingText code ++ ['"']

/-- A number as the Data Editor shows it. -/
def shownNumber (st : Stata D) (v : Variable D) (x : Number D) : List Char :=
  let labeled := if v.valueLabel = "" then "" else st.vlmap v.valueLabel x
  if labeled = "" then strtrim (st.strofrealNumber v.format x) else labeled.toList

/-- A cell of a column, in JSON. -/
def cell (st : Stata D) (formatted : Bool) (v : Variable D) (obs : Nat) : List Char :=
  match v.column with
  | .string value => jstrv (value obs).toList
  | .numeric value => if formatted then jstrv (shownNumber st v (value obs)) else jnumv st (value obs)

/-- `invtokens(pieces, ",")` -/
def invtokens (pieces : List (List Char)) : List Char := [','].intercalate pieces

def per : Nat := 32

/-- `parts[., p] = parts[., p] :+ (mod(j - 1, per) ? "," : "") :+ cell` -/
def addColumn (parts : List (List (List Char))) (j : Nat) (cells : List (List Char)) : List (List (List Char)) :=
  parts.modify ((j + per - 1) / per - 1) fun part =>
    List.zipWith (fun s c => s ++ (if (j - 1) % per = 0 then [] else [',']) ++ c) part cells

/-- Column `j` and those after it. -/
def addColumns (parts : List (List (List Char))) (j : Nat) : List (List (List Char)) → List (List (List Char))
  | [] => parts
  | cells :: columns => addColumns (addColumn parts j cells) (j + 1) columns

/-- Row `i` of the parts. -/
def partsOf (parts : List (List (List Char))) (i : Nat) : List (List Char) := parts.map fun part => part.getD i []

/-- The rows, each put together of its columns 32 at a time. -/
def rowTexts (n : Nat) (columns : List (List (List Char))) : List (List Char) :=
  let parts := List.replicate (max 1 ((columns.length + per - 1) / per)) (List.replicate n [])
  let parts := addColumns parts 1 columns
  if parts.length = 1 then parts.headD []
  else (List.range n).map fun i => invtokens (partsOf parts i)

/-- What `callisto_write` replaces: line feed, carriage return and tab, and then the characters 1 to 31. -/
def controlEscape (i : Nat) : List Char :=
  "\\u00".toList ++ (if i < 16 then ['0'] else []) ++ Nat.toDigits 16 i

def escapeControls (text : List Char) : List Char :=
  (List.range' 1 31).foldl (fun text i => subinstr (Char.ofNat i) (controlEscape i) text) text

/-- `callisto_write` -/
def callistoWrite (text : List Char) : List Char :=
  let text := subinstr '\n' ['\\', 'n'] text
  let text := subinstr '\r' ['\\', 'r'] text
  let text := subinstr '\t' ['\\', 't'] text
  if text.any fun c => 1 ≤ c.toNat && c.toNat ≤ 31 then escapeControls text else text

/-- `callisto_rows` -/
def callistoRows (st : Stata D) (varlist : List (Variable D)) (first last : Nat) (formatted : Bool) : List Char :=
  let columns := varlist.map fun v => (between first last).map (cell st formatted v)
  callistoWrite (['['] ++ invtokens ((rowTexts (last + 1 - first) columns).map fun row => ['['] ++ row ++ [']']) ++
    [']'])

/-- `callisto_jstrs` -/
def jstrs (names : List String) : List Char :=
  if names = [] then "[]".toList else ['['] ++ invtokens (names.map fun name => jstrv name.toList) ++ [']']

/-- `mataJson`: what the file holds is parsed. -/
def mataJson (st : Stata D) (file : List Char) : Option Json :=
  match Json.parse st.inRange (decoded (bytes file)) with
  | .discarded => none
  | answer => some answer

/-- `mataNames("variables")` -/
def mataNames (st : Stata D) (ds : Dataset D) : List String :=
  match mataJson st (callistoWrite (jstrs (ds.varlist.map Variable.name))) with
  | some (.array names) => names.filterMap fun
    | .string name => some name
    | _ => none
  | _ => []

/-- What a row of an answer says; a number is what it is read as. -/
def scalarOf (st : Stata D) : Json → Scalar D
  | .number spelling => .number (st.strtod spelling.toList)
  | .string s => .text s
  | _ => .null

def rowOf (st : Stata D) : Json → List (Scalar D)
  | .array cells => cells.map (scalarOf st)
  | _ => []

def rowsOf (st : Stata D) : Json → List (List (Scalar D))
  | .array rows => rows.map (rowOf st)
  | _ => []

def mataRows (st : Stata D) (ds : Dataset D) (varlist : List (Variable D)) (first last : Nat)
    (formatted : Bool) : Option (List (List (Scalar D))) :=
  if inDataset ds first last then
    (mataJson st (callistoRows st varlist first last formatted)).map (rowsOf st)
  else none

/-! ## `display _N` -/

/-- `n / d`, to the nearest. -/
def nearest (n d : Nat) : Nat := (n + d / 2) / d

/-- A whole number in `%10.0g`: nine digits at most, or four and an exponent. -/
def g10 (n : Nat) : List Char :=
  if n < 10 ^ 9 then Nat.toDigits 10 n
  else
    let e := Nat.log 10 n
    let q := nearest n (10 ^ (e - 3))
    let r := if q = 10 ^ 4 then (10 ^ 3, e + 1) else (q, e)
    Nat.toDigits 10 (r.1 / 10 ^ 3) ++ ['.'] ++ (Nat.toDigits 10 (10 ^ 3 + r.1 % 10 ^ 3)).drop 1 ++ "e+".toList ++
      (if r.2 < 10 then ['0'] else []) ++ Nat.toDigits 10 r.2

/-- `std::stoll`, of a text that begins with a digit: it stops where the digits do. -/
def stoll (text : List Char) : Nat := Nat.ofDigitChars 10 (text.takeWhile Char.isDigit) 0

/-! ## `readData` -/

/-- `start` and `count` are whole numbers of 32 bits, so that no sum of them overflows. -/
structure Request where
  /-- `variables` -/
  names : Option (List String) := none
  start : Int := 1
  count : Int := 100
  formatted : Bool := false

structure Page (D : Type) where
  start : Int
  count : Nat
  observations : Nat
  /-- `variables` -/
  names : List String
  formatted : Bool
  rows : List (List (Scalar D))

def kMaxRows : Int := 100000

/-- `not a variable name: ...`, for the first that is none. -/
def notAName (names : List String) : Option String :=
  (names.find? fun name => !isName (bytes name.toList)).map fun name =>
    "not a variable name: " ++ String.ofList (Json.dump (.string name))

/-- `confirm variable`, for one after the other. -/
def noVariable (ds : Dataset D) (names : List String) : Option String :=
  (names.find? fun name => (ds.find name).isNone).map fun name => "no variable " ++ name

/-- The rows of `first` to `last`, from the plugin or from Mata. -/
def readRows (st : Stata D) (plugin : Bool) (ds : Dataset D) (names : List String) (formatted : Bool)
    (first last : Nat) : Except String (List (List (Scalar D))) :=
  let varlist := names.filterMap ds.find
  let read := if formatted then none else pluginRows plugin ds varlist first last
  match read.or (mataRows st ds varlist first last formatted) with
  | some rows => .ok rows
  | none => .error "the data could not be read"

def readData (st : Stata D) (plugin : Bool) (ds : Dataset D) (request : Request) : Except String (Page D) := do
  let named := request.names.getD []
  match notAName named with
  | some message => throw message
  | none => pure ()
  let names := if named = [] then mataNames st ds else named
  let observations := stoll (g10 ds.observations)
  let start := max 1 request.start
  let count := max 0 (min request.count kMaxRows)
  let last := min (observations : Int) (start + count - 1)
  let rows ←
    if names ≠ [] ∧ start ≤ last then
      match noVariable ds named with
      | some message => throw message
      | none => readRows st plugin ds names request.formatted start.toNat last.toNat
    else pure []
  return { start, count := rows.length, observations, names, formatted := request.formatted, rows }

end Jovian.StataData
