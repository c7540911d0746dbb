import Jovian.Lib.Worklist
import Mathlib.Data.List.Lex

/-!
# Requirements — versions, what an R package requires, and what R would refuse to load

* `conflicts` — `.jv.pkg.conflicts`: the requirements of the installed copies a package loads that
  are not met.
* **`mem_conflicts_iff`** — they are those of the copies it reaches.
-/

namespace Jovian.Packages

/-! ## R's sets -/

def unique (xs : List String) : List String := xs.eraseDups

def intersect (xs ys : List String) : List String := unique (xs.filter (· ∈ ys))

def setdiff (xs ys : List String) : List String := unique (xs.filter (· ∉ ys))

def union (xs ys : List String) : List String := unique (xs ++ ys)

/-! ## Texts -/

def isSpace (c : Char) : Bool := c = ' ' ∨ ('\t' ≤ c ∧ c ≤ '\r')

def trimws (text : List Char) : List Char :=
  ((text.dropWhile isSpace).reverse.dropWhile isSpace).reverse

/-- `strsplit(text, ",")[[1]]`: no part after a comma at the end. -/
def strsplit (text : List Char) : List (List Char) :=
  let parts := text.splitOn ','
  if parts.getLast? = some [] then parts.dropLast else parts

/-! ## Versions -/

/-- The numbers of a version, between dots and dashes. R stops at a text that is none. -/
def packageVersion (v : String) : List Nat :=
  (v.toList.splitOnP fun c => c = '.' ∨ c = '-').map fun digits =>
    digits.foldl (fun n c => n * 10 + (c.toNat - '0'.toNat)) 0

/-- `.jv.pkg.meets`: `none` is `NA`. -/
def meets (v req : Option String) : Bool :=
  match v with
  | none => false
  | some v =>
    match req with
    | none => true
    | some req => req = "" ∨ packageVersion req ≤ packageVersion v

/-! ## Requirements -/

/-- `d` against `^([[:alnum:].]+)[[:space:]]*([(][[:space:]]*>=?[[:space:]]*([^)[:space:]]+))?`: the
name, and the version if there is one. -/
def requirement (d : List Char) : String × Option String :=
  let name : List Char := d.takeWhile fun c => c.isAlphanum ∨ c = '.'
  let version : List Char :=
    match (d.dropWhile fun c => c.isAlphanum ∨ c = '.').dropWhile isSpace with
    | '(' :: rest =>
      match rest.dropWhile isSpace with
      | '>' :: rest =>
        let rest := match rest with
          | '=' :: rest => rest
          | rest => rest
        (rest.dropWhile isSpace).takeWhile fun c => c ≠ ')' ∧ !isSpace c
      | _ => []
    | _ => []
  (String.ofList name, if name.isEmpty || version.isEmpty then none else some (String.ofList version))

/-- `.jv.pkg.requirements`: `"a (>= 1.0), b"` is `a` at `1.0` and `b` at any version. -/
def requirements (deps : Option String) : List (String × Option String) :=
  match deps with
  | none => []
  | some deps => (strsplit deps.toList).map fun d => requirement (trimws d)

/-! ## The installed packages -/

/-- A package's copy, as its DESCRIPTION has it. -/
structure Copy where
  version : String
  depends : Option String := none
  imports : Option String := none
  /-- The field the caller names. -/
  onDemand : Option String := none
deriving DecidableEq

/-- Of each package the first copy on `.libPaths()`, and the names of R's own. -/
structure Library where
  copies : List (String × Copy)
  base : List String
deriving DecidableEq

namespace Library

def copy? (lib : Library) (p : String) : Option Copy := lib.copies.lookup p

def names (lib : Library) : List String := lib.copies.map Prod.fst

/-- `.jv.pkg.version_of` -/
def versionOf (lib : Library) (p : String) : Option String := (lib.copy? p).map Copy.version

end Library

/-- A requirement R would refuse: `has` is `NA` where there is no copy. -/
structure Conflict where
  byPackage : String
  byVersion : String
  dep : String
  needs : Option String
  has : Option String
deriving DecidableEq

/-- `R` itself and its own packages are always there. -/
def skipped (base : List String) (p : String) : Bool := p = "R" ∨ p ∈ base

/-- What the copy requires to be loaded. -/
def requiredBy (base : List String) (c : Copy) : List (String × Option String) :=
  (requirements c.depends ++ requirements c.imports).filter fun r => r.1 ≠ "" ∧ !skipped base r.1

def loads (lib : Library) (p : String) : List String :=
  match lib.copy? p with
  | none => []
  | some c => (requiredBy lib.base c).map Prod.fst

/-- The packages that are looked at, `pkg` and what its copies load. -/
def loaded (lib : Library) (pkg : String) : List String :=
  if skipped lib.base pkg then []
  else Worklist.visit lib.names (fun _ p => loads lib p) [] [pkg]

/-- Whether R would refuse a requirement. -/
def refused (lib : Library) (r : String × Option String) : Bool :=
  match lib.versionOf r.1 with
  | none => true
  | some has =>
    match r.2 with
    | none => false
    | some needs => packageVersion has < packageVersion needs

/-- `.jv.pkg.conflicts`: the rows of each package that is looked at, in that order. -/
def conflicts (lib : Library) (pkg : String) : List Conflict :=
  (loaded lib pkg).flatMap fun p =>
    match lib.copy? p with
    | none => []
    | some c => ((requiredBy lib.base c).filter (refused lib)).map fun r =>
        { byPackage := p, byVersion := c.version, dep := r.1, needs := r.2, has := lib.versionOf r.1 }

/-! ## What conflicts are -/

variable {lib : Library} {pkg p q : String}

theorem mem_names_iff : p ∈ lib.names ↔ ∃ c, lib.copy? p = some c := by
  rw [← Option.isSome_iff_exists, Library.copy?, List.lookup_isSome_iff, Library.names, List.mem_map]
  constructor
  · rintro ⟨r, hr, rfl⟩
    exact ⟨r, hr, beq_self_eq_true _⟩
  · rintro ⟨r, hr, heq⟩
    exact ⟨r, hr, (eq_of_beq heq).symm⟩

/-- `q` is loaded with `p`, by the installed copies. -/
def Reaches (lib : Library) : String → String → Prop := Worklist.Reaches lib.names (loads lib)

/-- The packages that are looked at are those that are loaded. -/
theorem mem_loaded_iff (hpkg : skipped lib.base pkg = false) :
    q ∈ loaded lib pkg ↔ Reaches lib pkg q := by
  rw [loaded, if_neg (by simp [hpkg]), Worklist.mem_visit_iff (loads lib)]
  · simp [Reaches]
  · exact fun _ _ _ h => h
  · exact fun _ _ _ h => .inl h

/-- **What `conflicts` says**: a copy that is loaded requires what R would refuse. -/
theorem mem_conflicts_iff (hpkg : skipped lib.base pkg = false) {r : Conflict} :
    r ∈ conflicts lib pkg ↔ ∃ c, Reaches lib pkg r.byPackage ∧ lib.copy? r.byPackage = some c ∧
      (r.dep, r.needs) ∈ requiredBy lib.base c ∧ refused lib (r.dep, r.needs) = true ∧
      r.byVersion = c.version ∧ r.has = lib.versionOf r.dep := by
  rw [conflicts, List.mem_flatMap]
  constructor
  · rintro ⟨p, hp, hr⟩
    split at hr
    · cases hr
    · rename_i c hc
      obtain ⟨⟨dep, needs⟩, hmem, rfl⟩ := List.mem_map.mp hr
      obtain ⟨hmem, href⟩ := List.mem_filter.mp hmem
      exact ⟨c, (mem_loaded_iff hpkg).mp hp, hc, hmem, href, rfl, rfl⟩
  · rintro ⟨c, hreach, hc, hmem, href, hversion, hhas⟩
    refine ⟨r.byPackage, (mem_loaded_iff hpkg).mpr hreach, ?_⟩
    rw [hc]
    refine List.mem_map.mpr ⟨(r.dep, r.needs), List.mem_filter.mpr ⟨hmem, href⟩, ?_⟩
    rw [← hversion, ← hhas]

theorem conflicts_skipped (hpkg : skipped lib.base pkg = true) : conflicts lib pkg = [] := by
  rw [conflicts, loaded, if_pos hpkg, List.flatMap_nil]

end Jovian.Packages
