import Jovian.Packages.Requirements

/-!
# Plan — what `.jv.pkg.ensure` installs

The repositories' index says what there is to install and what it requires, the library what is
installed: `plan` (`.jv.pkg.plan`) lists what is missing, too old or, for an update, older than the
repositories have; `planned` is the plan a run installs, past the checks that end it.
-/

namespace Jovian.Packages

/-! ## The index -/

structure Row where
  version : String
  repository : String
  needsCompilation : Bool := false
  depends : Option String := none
  imports : Option String := none
  linkingTo : Option String := none
  suggests : Option String := none
deriving DecidableEq

/-- What `available.packages()` lists, a row a package. -/
structure Index where
  rows : List (String × Row)
  /-- `.Platform$pkgType == "source"` -/
  sourceBuilds : Bool := false

namespace Index

def row? (db : Index) (p : String) : Option Row := db.rows.lookup p

def rownames (db : Index) : List String := db.rows.map Prod.fst

end Index

/-- What the package is installed as. -/
def Row.copy (r : Row) : Copy := { version := r.version, depends := r.depends, imports := r.imports }

def Row.builtHere (r : Row) (db : Index) : Bool :=
  db.sourceBuilds && r.needsCompilation && !"https://p3m.dev/".isPrefixOf r.repository &&
    !r.repository.toList.tails.any fun rest => "/bin/linux/".toList.isPrefixOf rest

/-- The requirements of the fields `.jv.pkg.strong_for` names. -/
def strongFor (p : String) (db : Index) : List (String × Option String) :=
  match db.row? p with
  | none => []
  | some r => requirements r.depends ++ requirements r.imports ++
      if r.builtHere db then requirements r.linkingTo else []

/-- `.jv.pkg.dependencies`: the packages these need, as far as the repositories have them. -/
def dependencies (pkgs : List String) (db : Index) : List String :=
  Worklist.visit db.rownames
    (fun seen p => setdiff (intersect ((strongFor p db).map Prod.fst) db.rownames) seen) []
    (intersect pkgs db.rownames)

/-! ## The plan -/

structure Request where
  pkg : String
  /-- Empty where any version will do. -/
  minVersion : String := ""
  update : Bool := false
  withOptional : Bool := true
  /-- The application's repositories, which come before CRAN. -/
  appRepos : List String := []
  /-- Whether the caller names an on-demand field. -/
  onDemandField : Bool := false

structure Plan where
  todo : List String
  optional : List String
  required : String → Option String

/-- The packages that are wanted, and what conflicts ask for. -/
def wanted (req : Request) (lib : Library) : List String :=
  req.pkg :: (conflicts lib req.pkg).map Conflict.dep

def tree (req : Request) (db : Index) (lib : Library) : List String :=
  intersect (setdiff (unique (wanted req lib ++ dependencies (wanted req lib) db)) lib.base)
    db.rownames

/-- `raise(dep, version)` -/
def raise (tree : List String) (required : String → Option String) (r : String × Option String) :
    String → Option String :=
  match r.2 with
  | none => required
  | some version =>
    if r.1 ∈ tree ∧ (match required r.1 with
        | none => true
        | some now => decide (packageVersion now < packageVersion version)) = true then
      Function.update required r.1 (some version)
    else required

/-- The highest version any package in the tree requires of each dependency, by the index and by
the installed copies. -/
def required (req : Request) (db : Index) (lib : Library) : String → Option String :=
  let tree := tree req db lib
  let start : String → Option String := fun p =>
    if p = req.pkg ∧ req.minVersion ≠ "" then some req.minVersion else none
  let byIndex := tree.flatMap fun p => strongFor p db
  let byCopies := (conflicts lib req.pkg).map fun r => (r.dep, r.needs)
  (byIndex ++ byCopies).foldl (raise tree) start

/-- The packages of the application's repositories. -/
def own (req : Request) (db : Index) : List String :=
  (db.rows.filter fun row => req.appRepos.any fun repo => repo.isPrefixOf row.2.repository).map Prod.fst

def devOnly : List String :=
  ["testthat", "knitr", "rmarkdown", "spelling", "covr", "lintr", "roxygen2", "devtools", "usethis",
    "pkgdown"]

/-- The names of a `Suggests` field, without versions. -/
def suggestedBy (field : Option String) : List String :=
  match field with
  | none => []
  | some s => (strsplit s.toList).map fun d => String.ofList (trimws (d.takeWhile (· ≠ '(')))

/-- The names of an on-demand field. -/
def onDemandBy (field : Option String) : List String :=
  match field with
  | none => []
  | some s => (strsplit s.toList).map fun d => String.ofList (trimws d)

def optional (req : Request) (db : Index) (lib : Library) : List String :=
  let tree := tree req db lib
  let apps := intersect tree (req.pkg :: own req db)
  let suggested := unique (apps.flatMap fun p => suggestedBy ((db.row? p).bind Row.suggests))
  let suggested := setdiff suggested (tree ++ devOnly ++ [""] ++ lib.base)
  let onDemand := if !req.onDemandField then []
    else unique (apps.flatMap fun p => onDemandBy ((lib.copy? p).bind Copy.onDemand))
  let suggested := setdiff suggested onDemand
  let suggested := if req.withOptional then suggested else []
  let optional := intersect suggested db.rownames
  let optional := unique (optional ++ dependencies optional db)
  setdiff (intersect optional db.rownames) (tree ++ lib.base)

def todo (req : Request) (db : Index) (lib : Library) : List String :=
  let tree := tree req db lib
  let todo := tree.filter fun p => !meets (lib.versionOf p) (required req db lib p)
  if req.update then
    union todo (tree.filter fun p =>
      p ∈ req.pkg :: own req db &&
        match lib.versionOf p, (db.row? p).map Row.version with
        | some current, some newest => packageVersion current < packageVersion newest
        | _, _ => false)
  else todo

/-- `.jv.pkg.plan` -/
def plan (req : Request) (db : Index) (lib : Library) : Plan where
  todo := todo req db lib
  optional := (optional req db lib).filter fun p => (lib.versionOf p).isNone
  required := required req db lib

/-! ## The run -/

/-- The plan that `.jv.pkg.run` goes on to install: the package and what the conflicts ask for are in
the index, and all that is to install is there in the versions required. -/
def planned (req : Request) (db : Index) (lib : Library) : Option Plan :=
  if req.pkg ∉ db.rownames then none
  else if ((conflicts lib req.pkg).filter fun r => r.dep ∉ db.rownames) ≠ [] then none
  else
    let plan := plan req db lib
    if (plan.todo.filter fun p => !meets ((db.row? p).map Row.version) (plan.required p)) ≠ [] then none
    else some plan

/-- The library once everything the plan lists is installed, in the first library. -/
def installed (plan : Plan) (db : Index) (lib : Library) : Library :=
  { lib with copies :=
      ((plan.todo ++ plan.optional).filterMap fun p => (db.row? p).map fun r => (p, r.copy)) ++ lib.copies }

inductive Outcome where
  | result
  | error (left : List Conflict)
  | failed (packages : List String)

/-- How `.jv.pkg.install` ends, by what is installed after it. -/
def outcome (req : Request) (plan : Plan) (after : Library) : Outcome :=
  let failed := plan.todo.filter fun p => !meets (after.versionOf p) (plan.required p)
  if failed ≠ [] then .failed failed
  else if conflicts after req.pkg ≠ [] then .error (conflicts after req.pkg)
  else .result

end Jovian.Packages
