import Jovian.Lib.Lines
import Mathlib.Data.List.Infix
import Mathlib.Logic.Relation

/-!
# PyInstall — what the install script takes for met

`PY_INSTALL_SCRIPT` looks itself at what is installed, and runs pip where a requirement is not met
or a line of the requirements file is an option. It looks at a package and its version alone, and
reads a requirements file a line at a time.

* **`agrees_iff`** — it agrees with pip where pip can read what the script can't, and where what
  the script takes for enough needs nothing that it does not look at.
-/

namespace Jovian.PyInstall

open Lines (Text)

/-! ## Requirements, and what pip does with them -/

/-- `packaging.requirements.Requirement`. -/
structure Requirement (S M : Type) where
  name : Text
  extras : List Text := []
  /-- `none` where any version will do. -/
  specifier : Option S := none
  marker : Option M := none
  url : Option Text := none

structure Dist (V S M : Type) where
  version : V
  /-- Its `Requires-Dist`. -/
  requires : List (Requirement S M) := []

/-- What is installed, by name. -/
abbrev Environment (V S M : Type) := Text → Option (Dist V S M)

/-- The Python the script runs in, and its `packaging`. -/
structure Python (V S M : Type) where
  parse : Text → Option (Requirement S M)
  /-- Of prereleases too. -/
  contains : S → V → Bool
  /-- For an extra, `[]` for none. -/
  evaluate : M → Text → Bool
  /-- 3.11 or newer. -/
  hasTomllib : Bool := true

structure File where
  path : Text
  content : Text

/-- `pip install`. -/
structure Call where
  options : List Text
  requirements : List Text
  file : Option File := none

structure Ran (V S M : Type) where
  code : Int
  /-- Of both streams. -/
  out : Text := []
  /-- What is installed after it. -/
  env : Environment V S M
  /-- The names in the report, where there is one. -/
  report : Option (List Text) := none

structure Pip (V S M : Type) where
  /-- What an argument asks for, `none` where pip does not accept it. -/
  asks : Text → Option (Requirement S M)
  /-- What a requirements file asks for, behind its options too. -/
  reads : File → List (Requirement S M)
  /-- The package is what the URL holds. -/
  holds : Text → Dist V S M → Bool
  run : Environment V S M → Call → Ran V S M

variable {V S M : Type} (py : Python V S M) (pip : Pip V S M)

namespace Requirement

/-- With no extra, or with one of these. -/
def applies (r : Requirement S M) (extras : List Text) : Bool :=
  match r.marker with
  | none => true
  | some marker => py.evaluate marker [] || extras.any (py.evaluate marker)

variable (env : Environment V S M)

/-- There in a version that will do. -/
def Found (r : Requirement S M) : Prop :=
  ∃ dist, env r.name = some dist ∧ ∀ s, r.specifier = some s → py.contains s dist.version

def FromUrl (r : Requirement S M) : Prop :=
  ∀ dist url, env r.name = some dist → r.url = some url → pip.holds url dist

/-- What is installed for `r` requires it, with `r`'s extras. -/
def Needs (r needed : Requirement S M) : Prop :=
  ∃ dist, env r.name = some dist ∧ needed ∈ dist.requires ∧ needed.applies py r.extras

/-- Pip has nothing to install: all that `r` needs is there, itself too. -/
def Settled (r : Requirement S M) : Prop :=
  ∀ needed, Relation.ReflTransGen (Needs py env) r needed →
    Found py env needed ∧ FromUrl pip env needed

/-- What the script does not look at. -/
def Complete (r : Requirement S M) : Prop :=
  FromUrl pip env r ∧ ∀ needed, Needs py env r needed → Settled py pip env needed

theorem settled_iff {r : Requirement S M} :
    Settled py pip env r ↔ Found py env r ∧ Complete py pip env r := by
  constructor
  · intro h
    have hr := h r .refl
    exact ⟨hr.1, hr.2, fun needed hneeds later hlater => h later (.head hneeds hlater)⟩
  · rintro ⟨hfound, hurl, hneeded⟩ later hlater
    rcases hlater.cases_head with rfl | ⟨needed, hneeds, hlater⟩
    · exact ⟨hfound, hurl⟩
    · exact hneeded needed hneeds later hlater

end Requirement

/-- All a run of pip is to install. -/
def Pip.handed (call : Call) : List (Requirement S M) :=
  call.requirements.filterMap pip.asks ++ (call.file.map pip.reads).getD []

/-- The script has it first. -/
def Call.isDryRun (call : Call) : Bool := call.options.head? = some "--dry-run".toList

/-- Pip takes any requirement as an argument, and a run that succeeds leaves nothing to install of
what it was handed. -/
structure Documented : Prop where
  accepts : ∀ text r, py.parse text = some r → (pip.asks text).isSome
  installs : ∀ env call, (pip.run env call).code = 0 → call.isDryRun = false →
    ∀ r ∈ pip.handed call, r.applies py [] → r.Settled py pip (pip.run env call).env

/-! ## The request -/

structure Package where
  name : Text
  version : Option Text := none

structure Request where
  requirements : List Text := []
  requirementsFile : Option File := none
  /-- The dependencies that `pyproject.toml` lists. -/
  pyproject : Option (List Text) := none
  package : Option Package := none
  index : Option Text := none
  update : Bool := false
  planOnly : Bool := false

def Package.req (pkg : Package) : Text :=
  pkg.name ++ match pkg.version with
    | none | some [] => []
    | some version => ">=".toList ++ version

namespace Request

def pkgReq (request : Request) : Option Text := request.package.map Package.req

/-- What is asked for besides the requirements file. -/
def arguments (request : Request) : List Text :=
  request.requirements ++ request.pyproject.getD [] ++ request.pkgReq.toList

/-- What is asked of pip. -/
def Asks (request : Request) (r : Requirement S M) : Prop :=
  (∃ text ∈ request.arguments, pip.asks text = some r) ∨
    ∃ file, request.requirementsFile = some file ∧ r ∈ pip.reads file

end Request

/-! ## Reading it -/

/-- Python's white space. -/
def isSpace (c : Char) : Bool :=
  ('\t' ≤ c ∧ c ≤ '\r') ∨ c = ' ' ∨ (0x1C ≤ c.toNat ∧ c.toNat ≤ 0x1F) ∨
    c.toNat ∈ [0x85, 0xA0, 0x1680, 0x2028, 0x2029, 0x202F, 0x205F, 0x3000] ∨
    (0x2000 ≤ c.toNat ∧ c.toNat ≤ 0x200A)

def strip (text : Text) : Text := ((text.dropWhile isSpace).reverse.dropWhile isSpace).reverse

/-- `line.split(" #")[0]` -/
def beforeComment : Text → Text
  | [] => []
  | c :: rest => if " #".toList.isPrefixOf (c :: rest) then [] else c :: beforeComment rest

/-- The lines of a file. `\r\n` gives an empty one too. -/
def fileLines (text : Text) : List Text := text.splitOnP fun c => c = '\n' ∨ c = '\r'

structure Reading where
  reqs : List Text
  /-- A line of the file is an option. -/
  isOpaque : Bool := false
deriving DecidableEq

def Reading.addLine (asked : Reading) (line : Text) : Reading :=
  let line := strip (beforeComment line)
  if line = [] ∨ line.head? = some '#' then asked
  -- an option behind a requirement stays in its text
  else if line.head? = some '-' then { asked with isOpaque := true }
  else { asked with reqs := asked.reqs ++ [line] }

def Reading.addFile (asked : Reading) (file : Option File) : Reading :=
  match file with
  | none => asked
  | some file => (fileLines file.content).foldl addLine asked

/-- `none` where it takes a newer Python to read `pyproject.toml`. -/
def Request.read (request : Request) : Option Reading :=
  let asked := Reading.addFile { reqs := request.requirements } request.requirementsFile
  match request.pyproject with
  | none => some { asked with reqs := asked.reqs ++ request.pkgReq.toList }
  | some dependencies =>
    if py.hasTomllib then
      some { asked with reqs := asked.reqs ++ dependencies ++ request.pkgReq.toList }
    else none

/-! ## The script -/

variable (env : Environment V S M)

def isUnmet (text : Text) : Bool :=
  match py.parse text with
  | none => true
  | some req =>
    -- neither the extras nor the URL, nor what the package itself requires
    if req.marker.any (!py.evaluate · []) then false
    else match env req.name with
      | none => true
      | some dist => req.specifier.any (!py.contains · dist.version)

def unmet (requirements : List Text) : List Text := requirements.filter (isUnmet py env)

def versionOf (name : Text) : Option V := (env name).map Dist.version

inductive Verdict (V : Type) where
  | result (previous version : Option V) (changed offline : Bool)
  | plan (install replace : List Text)
  | offline (why : Text)
  | error (why : Text)

structure Outcome (V S M : Type) where
  calls : List Call := []
  /-- What is installed in the end. -/
  env : Environment V S M
  verdict : Verdict V

def network : List String :=
  ["NewConnectionError", "Failed to establish a new connection", "getaddrinfo failed",
    "Name or service not known", "Temporary failure in name resolution", "Could not fetch URL",
    "ConnectTimeoutError", "ReadTimeoutError", "No route to host", "ProxyError"]

def isNetwork (out : Text) : Bool := network.any fun n => n.toList <:+: out

/-- `str.splitlines` ends a line here. -/
def isLineEnd (c : Char) : Bool :=
  ('\n' ≤ c ∧ c ≤ '\r') ∨ c.toNat ∈ [0x1C, 0x1D, 0x1E, 0x85, 0x2028, 0x2029]

def lastLine (text : Text) : Text := (text.reverse.takeWhile (!isLineEnd ·)).reverse

def Ran.problem (ran : Ran V S M) : Text :=
  if strip ran.out = [] then "pip exited with code ".toList ++ (toString ran.code).toList
  else lastLine (strip ran.out)

/-- What pip did so far. -/
structure Runs (V S M : Type) where
  calls : List Call := []
  env : Environment V S M
  changed : Bool := false
  problems : List Text := []
  network : Bool := false
  unreached : Bool := false

def Runs.next (runs : Runs V S M) (call : Call) : Runs V S M :=
  let ran := pip.run runs.env call
  { runs with
    calls := runs.calls ++ [call]
    env := ran.env
    changed := runs.changed || decide ("Successfully installed".toList <:+: ran.out)
    network := runs.network || (ran.code ≠ 0 && isNetwork ran.out)
    problems := if ran.code = 0 then runs.problems else runs.problems ++ [ran.problem] }

namespace Request

variable (request : Request)

def indexOptions : List Text :=
  match request.index with
  | none | some [] => []
  | some index => ["--extra-index-url".toList, index]

def pipOptions : List Text :=
  ["--disable-pip-version-check", "--no-input", "--timeout", "30", "--retries", "2",
    "--upgrade-strategy", "only-if-needed"].map String.toList ++ request.indexOptions

def planOptions : List Text :=
  ["--dry-run", "--quiet", "--report", "-", "--disable-pip-version-check", "--no-input",
      "--timeout", "30", "--retries", "2",
      "--upgrade-strategy", "only-if-needed"].map String.toList ++
    (if request.update ∧ request.pkgReq.isSome then ["--upgrade".toList] else []) ++
    request.indexOptions

end Request

namespace Reading

variable (request : Request) (asked : Reading)

/-- Handed to pip whole where a line is an option. -/
def file : Option File := if asked.isOpaque then request.requirementsFile else none

def todo : List Text := unmet py env asked.reqs

/-- Nothing to run pip for. -/
def isMet : Bool := todo py env asked = [] ∧ asked.isOpaque = false ∧ request.update = false

def planCall : Call :=
  let todo := todo py env asked
  { options := request.planOptions
    requirements := todo ++
      (if request.update then request.pkgReq.toList.filter (· ∉ todo) else [])
    file := asked.file request }

def plan : Outcome V S M :=
  let call := planCall py env request asked
  let ran := pip.run env call
  let install := ran.report.getD (call.requirements.filterMap fun text =>
    (py.parse text).map Requirement.name)
  { calls := [call], env := ran.env
    verdict := .plan install (install.filter fun name => (ran.env name).isSome) }

def installCall : Call :=
  { options := request.pipOptions
    requirements := todo py env asked
    file := asked.file request }

def upgradeCall (pkgReq : Text) : Call :=
  { options := request.pipOptions ++ ["--upgrade".toList], requirements := [pkgReq] }

def installed : Runs V S M :=
  if todo py env asked ≠ [] ∨ asked.isOpaque then
    ({ env := env } : Runs V S M).next pip (installCall py env request asked)
  else { env := env }

/-- Pip keeps what is installed, and succeeds, where it can't reach the index for an upgrade. -/
def upgraded (runs : Runs V S M) : Runs V S M :=
  match request.pkgReq with
  | none => runs
  | some pkgReq =>
    if request.update ∧ runs.problems = [] then
      -- `network` and `problems` only where pip failed
      let call := upgradeCall request pkgReq
      let ran := pip.run runs.env call
      { runs.next pip call with unreached := ran.code = 0 && isNetwork ran.out }
    else runs

def runs : Runs V S M := upgraded pip request (installed py pip env request asked)

end Reading

/-- `" ".join(msg.split())` -/
def oneLine (msg : Text) : Text :=
  [' '].intercalate ((msg.splitOnP isSpace).filter (· ≠ []))

def named (texts : List Text) : Text := (", ".toList).intercalate texts

/-- What is installed is taken for enough. -/
def Runs.isEnough (runs : Runs V S M) (asked : Reading) : Bool :=
  unmet py runs.env asked.reqs = [] ∧ (runs.problems = [] ∨ runs.network)

def Runs.verdict (runs : Runs V S M) (request : Request) (asked : Reading) : Verdict V :=
  let version (env : Environment V S M) := request.package.bind fun pkg => versionOf env pkg.name
  let still := unmet py runs.env asked.reqs
  let names := named (if still = [] then asked.todo py env else still)
  if runs.isEnough py asked then
    .result (version env) (version runs.env) runs.changed (runs.problems ≠ [] || runs.unreached)
  else if runs.network then
    .offline (oneLine
      ("Could not reach the Python package index to install ".toList ++ names ++ ['.']))
  else
    .error (oneLine ("Could not install ".toList ++ names ++ ". ".toList ++
      [' '].intercalate runs.problems))

def Reading.install (request : Request) (asked : Reading) : Outcome V S M :=
  if asked.isMet py env request then
    let previous := request.package.bind fun pkg => versionOf env pkg.name
    { env := env, verdict := .result previous previous false false }
  else if request.planOnly then asked.plan py pip env request
  else
    let runs := asked.runs py pip env request
    { calls := runs.calls, env := runs.env, verdict := runs.verdict py env request asked }

/-- `PY_INSTALL_SCRIPT` -/
def install (request : Request) : Outcome V S M :=
  match request.read py with
  | none =>
    { env := env
      verdict := .error ("Reading pyproject.toml needs Python 3.11 or newer: use " ++
        "requirements.txt for this app, or a newer Python.").toList }
  | some asked => asked.install py pip env request

/-! ## Pip's view -/

def Verdict.IsResult : Verdict V → Prop
  | .result .. => True
  | .plan .. | .offline .. | .error .. => False

structure Agrees (request : Request) (outcome : Outcome V S M) : Prop where
  /-- Pip was not needed. -/
  untouched : outcome.calls = [] → outcome.verdict.IsResult →
    ∀ r, request.Asks pip r → r.applies py [] → r.Settled py pip env
  accepted : ∀ call ∈ outcome.calls, ∀ text ∈ call.requirements, (pip.asks text).isSome
  met : outcome.verdict.IsResult →
    ∀ r, request.Asks pip r → r.applies py [] → r.Settled py pip outcome.env

/-- The last run of pip was to install it, and succeeded. -/
def Runs.Secured (runs : Runs V S M) (r : Requirement S M) : Prop :=
  runs.problems = [] ∧ ∃ call ∈ runs.calls.getLast?, r ∈ pip.handed call

/-- The script reads it too. -/
def Reading.Sees (asked : Reading) (r : Requirement S M) : Prop :=
  ∃ text ∈ asked.reqs, py.parse text = some r

/-- Without what the script looks at. -/
def Reading.Rests (asked : Reading) (env : Environment V S M) (r : Requirement S M) : Prop :=
  r.Complete py pip env ∧ (¬asked.Sees py r → r.Found py env)

structure Suits (request : Request) (asked : Reading) : Prop where
  /-- Pip can read what the script can't. -/
  accepted : ∀ text ∈ asked.reqs, py.parse text = none → (pip.asks text).isSome
  /-- Where it was no plan, and what pip left is taken for enough. -/
  rests : (asked.isMet py env request ∨ request.planOnly = false) →
    (asked.runs py pip env request).isEnough py asked →
    ∀ r, request.Asks pip r → r.applies py [] →
      ¬(asked.runs py pip env request).Secured pip r →
      asked.Rests py pip (asked.runs py pip env request).env r

/-! ## What the script looks at -/

variable {py pip env} {r : Requirement S M} {request : Request} {asked : Reading} {text : Text}
  {runs : Runs V S M} {call : Call}

theorem applies_nil : r.applies py [] = !r.marker.any (!py.evaluate · []) := by
  unfold Requirement.applies
  cases r.marker with
  | none => rfl
  | some marker => simp

theorem isUnmet_eq_false_iff : isUnmet py env text = false ↔
    ∃ r, py.parse text = some r ∧ (r.applies py [] → r.Found py env) := by
  unfold isUnmet
  cases py.parse text with
  | none => simp
  | some r =>
    simp only [Option.some.injEq, exists_eq_left', applies_nil, Bool.not_eq_true']
    cases hmarker : r.marker.any (!py.evaluate · []) with
    | true => simp
    | false =>
      simp only [Requirement.Found, Bool.false_eq_true, if_false, forall_const]
      cases env r.name with
      | none => simp
      | some dist => simp [Option.any_eq_false]

theorem found_of_sees {env : Environment V S M} (hmet : unmet py env asked.reqs = [])
    (hsees : asked.Sees py r) (happlies : r.applies py []) : r.Found py env := by
  obtain ⟨text, htext, hparse⟩ := hsees
  have hfalse : isUnmet py env text = false := by
    simpa using List.filter_eq_nil_iff.mp hmet text htext
  obtain ⟨r', hparse', hfound⟩ := isUnmet_eq_false_iff.mp hfalse
  obtain rfl : r = r' := Option.some.inj (hparse.symm.trans hparse')
  exact hfound happlies

/-- Where the script finds nothing unmet, what it does not look at decides. -/
theorem settled_iff_rests {env : Environment V S M} (hmet : unmet py env asked.reqs = [])
    (happlies : r.applies py []) : r.Settled py pip env ↔ asked.Rests py pip env r := by
  rw [Requirement.settled_iff, Reading.Rests, and_comm]
  refine and_congr_right fun _ => ⟨fun hfound _ => hfound, fun h => ?_⟩
  by_cases hsees : asked.Sees py r
  · exact found_of_sees hmet hsees happlies
  · exact h hsees

/-! ## What pip was handed -/

theorem installed_cases : asked.todo py env = [] ∧ asked.isOpaque = false ∧
      asked.installed py pip env request = { env := env } ∨
    (asked.todo py env ≠ [] ∨ asked.isOpaque = true) ∧ asked.installed py pip env request =
      ({ env := env } : Runs V S M).next pip (asked.installCall py env request) := by
  unfold Reading.installed
  split
  · rename_i hrun
    exact .inr ⟨hrun, rfl⟩
  · rename_i hrun
    simp only [ne_eq, not_or, not_not, Bool.not_eq_true] at hrun
    exact .inl ⟨hrun.1, hrun.2, rfl⟩

theorem runs_cases :
    asked.runs py pip env request = asked.installed py pip env request ∨
    ∃ pkgReq unreached, request.pkgReq = some pkgReq ∧ request.update = true ∧
      asked.runs py pip env request =
        { (asked.installed py pip env request).next pip
            (Reading.upgradeCall request pkgReq) with unreached } := by
  unfold Reading.runs Reading.upgraded
  cases request.pkgReq with
  | none => exact .inl rfl
  | some pkgReq =>
    dsimp only
    split
    · rename_i hupdate
      exact .inr ⟨pkgReq, _, rfl, hupdate.1, rfl⟩
    · exact .inl rfl

theorem settled_of_secured_next (doc : Documented py pip) (hcall : call.isDryRun = false)
    (h : (runs.next pip call).Secured pip r) (happlies : r.applies py []) :
    r.Settled py pip (runs.next pip call).env := by
  obtain ⟨hproblems, last, hlast, hhanded⟩ := h
  have hlast : call = last := by simpa [Runs.next] using hlast
  subst hlast
  -- a run that failed would have left a problem
  have hcode : (pip.run runs.env call).code = 0 := by
    by_contra hcode
    simp [Runs.next, hcode] at hproblems
  exact doc.installs runs.env call hcode hcall r hhanded happlies

theorem settled_of_secured (doc : Documented py pip)
    (h : (asked.runs py pip env request).Secured pip r) (happlies : r.applies py []) :
    r.Settled py pip (asked.runs py pip env request).env := by
  rcases runs_cases with heq | ⟨pkgReq, unreached, -, -, heq⟩
  · rw [heq] at h ⊢
    rcases installed_cases with ⟨-, -, heq⟩ | ⟨-, heq⟩
    · rw [heq] at h
      obtain ⟨-, call, hcall, -⟩ := h
      cases hcall
    · rw [heq] at h ⊢
      exact settled_of_secured_next doc rfl h happlies
  · rw [heq] at h ⊢
    have hnext : ((asked.installed py pip env request).next pip
        (Reading.upgradeCall request pkgReq)).Secured pip r := h
    exact settled_of_secured_next doc rfl hnext happlies

/-- Without a run of pip nothing changes. -/
theorem env_of_calls (h : (asked.runs py pip env request).calls = []) :
    (asked.runs py pip env request).env = env := by
  rcases runs_cases with heq | ⟨pkgReq, unreached, -, -, heq⟩
  · rw [heq] at h ⊢
    rcases installed_cases with ⟨-, -, heq⟩ | ⟨-, heq⟩
    · rw [heq]
    · rw [heq] at h
      cases h
  · rw [heq] at h
    exact absurd h (List.append_ne_nil_of_right_ne_nil _ (List.cons_ne_nil _ _))

/-! ## The arguments -/

theorem pkgReq_mem_reqs {pkgReq : Text} (hread : request.read py = some asked)
    (hpkg : request.pkgReq = some pkgReq) : pkgReq ∈ asked.reqs := by
  unfold Request.read at hread
  split at hread
  · obtain rfl := Option.some.inj hread
    simp [hpkg]
  · split at hread
    · obtain rfl := Option.some.inj hread
      simp [hpkg]
    · cases hread

theorem todo_subset : asked.todo py env ⊆ asked.reqs := List.filter_subset_self _

theorem planCall_subset (hread : request.read py = some asked) :
    (asked.planCall py env request).requirements ⊆ asked.reqs := by
  intro text htext
  rcases List.mem_append.mp htext with htodo | hpkg
  · exact todo_subset htodo
  · split at hpkg
    · have hmem := (List.mem_filter.mp hpkg).1
      exact pkgReq_mem_reqs hread (Option.mem_toList.mp hmem)
    · exact absurd hpkg List.not_mem_nil

theorem installed_calls_subset (hcall : call ∈ (asked.installed py pip env request).calls) :
    call.requirements ⊆ asked.reqs := by
  rcases installed_cases with ⟨-, -, heq⟩ | ⟨-, heq⟩
  · rw [heq] at hcall
    exact absurd hcall List.not_mem_nil
  · rw [heq] at hcall
    obtain rfl := List.mem_singleton.mp hcall
    exact todo_subset

theorem runs_calls_subset (hread : request.read py = some asked)
    (hcall : call ∈ (asked.runs py pip env request).calls) :
    call.requirements ⊆ asked.reqs := by
  rcases runs_cases with heq | ⟨pkgReq, unreached, hpkg, -, heq⟩
  · rw [heq] at hcall
    exact installed_calls_subset hcall
  · rw [heq] at hcall
    rcases List.mem_append.mp hcall with hcall | hcall
    · exact installed_calls_subset hcall
    · obtain rfl := List.mem_singleton.mp hcall
      exact List.cons_subset.mpr ⟨pkgReq_mem_reqs hread hpkg, List.nil_subset _⟩

/-- What is to do is in the first call. -/
theorem installCall_mem_runs (h : asked.todo py env ≠ []) :
    asked.installCall py env request ∈ (asked.runs py pip env request).calls := by
  have hinstalled : asked.installCall py env request ∈
      (asked.installed py pip env request).calls := by
    rcases installed_cases with ⟨htodo, -, -⟩ | ⟨-, heq⟩
    · exact absurd htodo h
    · rw [heq]
      exact List.mem_append_right _ List.mem_cons_self
  rcases runs_cases with heq | ⟨pkgReq, unreached, -, -, heq⟩
  · rw [heq]
    exact hinstalled
  · rw [heq]
    exact List.mem_append_left _ hinstalled

/-! ## The outcome -/

theorem isMet_iff : asked.isMet py env request = true ↔
    asked.todo py env = [] ∧ asked.isOpaque = false ∧ request.update = false := by
  simp [Reading.isMet]

theorem runs_of_isMet (h : asked.isMet py env request) :
    asked.runs py pip env request = { env := env } := by
  obtain ⟨htodo, hopaque, hupdate⟩ := isMet_iff.mp h
  rcases runs_cases with heq | ⟨pkgReq, unreached, -, hupdate', -⟩
  · rcases installed_cases with ⟨-, -, heq'⟩ | ⟨hrun, -⟩
    · exact heq.trans heq'
    · simp [htodo, hopaque] at hrun
  · exact absurd (hupdate.symm.trans hupdate') Bool.false_ne_true

/-- With nothing to run pip for the script says what it would after it. -/
theorem install_eq_runs (h : asked.isMet py env request ∨ request.planOnly = false) :
    asked.install py pip env request =
      { calls := (asked.runs py pip env request).calls
        env := (asked.runs py pip env request).env
        verdict := (asked.runs py pip env request).verdict py env request asked } := by
  unfold Reading.install
  by_cases hmet : asked.isMet py env request
  · have henough : Runs.isEnough py ({ env := env } : Runs V S M) asked = true := by
      have htodo : unmet py env asked.reqs = [] := (isMet_iff.mp hmet).1
      simp [Runs.isEnough, htodo]
    rw [if_pos hmet, runs_of_isMet hmet, Runs.verdict, if_pos henough]
    rfl
  · rw [if_neg hmet, if_neg (by simp [h.resolve_left hmet])]

theorem isResult_verdict : (runs.verdict py env request asked).IsResult ↔
    runs.isEnough py asked := by
  unfold Runs.verdict
  dsimp only
  split
  · rename_i henough
    exact iff_of_true trivial henough
  · rename_i henough
    split <;> exact iff_of_false id henough

theorem isResult_install : (asked.install py pip env request).verdict.IsResult ↔
    (asked.isMet py env request ∨ request.planOnly = false) ∧
      (asked.runs py pip env request).isEnough py asked := by
  by_cases h : asked.isMet py env request ∨ request.planOnly = false
  · rw [install_eq_runs h]
    exact isResult_verdict.trans (and_iff_right h).symm
  · have hplan : asked.install py pip env request = asked.plan py pip env request := by
      simp only [not_or, Bool.not_eq_true, Bool.not_eq_false] at h
      simp [Reading.install, h]
    rw [hplan]
    exact iff_of_false id fun hresult => h hresult.1

theorem install_calls_subset (hread : request.read py = some asked)
    (hcall : call ∈ (asked.install py pip env request).calls) :
    call.requirements ⊆ asked.reqs := by
  unfold Reading.install at hcall
  split at hcall
  · exact absurd hcall List.not_mem_nil
  · split at hcall
    · obtain rfl := List.mem_singleton.mp hcall
      exact planCall_subset hread
    · exact runs_calls_subset hread hcall

/-- What the script can't read is always handed to pip. -/
theorem handed_of_todo (h : text ∈ asked.todo py env) :
    ∃ call ∈ (asked.install py pip env request).calls, text ∈ call.requirements := by
  have htodo : asked.todo py env ≠ [] := List.ne_nil_of_mem h
  unfold Reading.install
  rw [if_neg fun hmet => htodo (isMet_iff.mp hmet).1]
  split
  · exact ⟨_, List.mem_singleton.mpr rfl, List.mem_append_left _ h⟩
  · exact ⟨_, installCall_mem_runs htodo, h⟩

theorem accepted_iff (doc : Documented py pip) (hread : request.read py = some asked) :
    (∀ call ∈ (asked.install py pip env request).calls, ∀ text ∈ call.requirements,
      (pip.asks text).isSome) ↔
    ∀ text ∈ asked.reqs, py.parse text = none → (pip.asks text).isSome := by
  constructor
  · intro h text htext hparse
    have htodo : text ∈ asked.todo py env :=
      List.mem_filter.mpr ⟨htext, by simp [isUnmet, hparse]⟩
    obtain ⟨call, hcall, hmem⟩ : ∃ call ∈ (asked.install py pip env request).calls,
        text ∈ call.requirements := handed_of_todo htodo
    exact h call hcall text hmem
  · intro h call hcall text htext
    have hmem : text ∈ asked.reqs := install_calls_subset hread hcall htext
    cases hparse : py.parse text with
    | none => exact h text hmem hparse
    | some r => exact doc.accepts text r hparse

theorem met_iff (doc : Documented py pip) :
    ((asked.install py pip env request).verdict.IsResult → ∀ r, request.Asks pip r →
      r.applies py [] → r.Settled py pip (asked.install py pip env request).env) ↔
    ((asked.isMet py env request ∨ request.planOnly = false) →
      (asked.runs py pip env request).isEnough py asked →
      ∀ r, request.Asks pip r → r.applies py [] →
        ¬(asked.runs py pip env request).Secured pip r →
        asked.Rests py pip (asked.runs py pip env request).env r) := by
  rw [isResult_install, and_imp]
  refine forall_congr' fun hrun => forall_congr' fun henough => ?_
  -- nothing is unmet in what pip left, so of each requirement the rest decides
  refine forall₃_congr fun r _ happlies => ?_
  rw [install_eq_runs hrun]
  have hmet : unmet py (asked.runs py pip env request).env asked.reqs = [] := by
    simp only [Runs.isEnough, decide_eq_true_eq] at henough
    exact henough.1
  rw [← settled_iff_rests hmet happlies]
  refine ⟨fun h _ => h, fun h => ?_⟩
  by_cases hsecured : (asked.runs py pip env request).Secured pip r
  · exact settled_of_secured doc hsecured happlies
  · exact h hsecured

/-- The script agrees with pip exactly where pip can read what it can't, and where what it takes for
enough lacks nothing of what it does not look at: extras, dependencies, a URL, and what only pip
reads in the requirements file, but for what a run of pip that succeeded was handed last. -/
theorem agrees_iff (doc : Documented py pip) :
    Agrees py pip env request (install py pip env request) ↔
      ∀ asked, request.read py = some asked → Suits py pip env request asked := by
  unfold install
  cases hread : request.read py with
  | none =>
    refine iff_of_true ⟨fun _ => False.elim, fun call hcall => ?_, False.elim⟩ fun _ h => ?_
    · exact absurd hcall List.not_mem_nil
    · cases h
  | some asked =>
    simp only [Option.some.injEq, forall_eq']
    constructor
    · intro h
      exact ⟨(accepted_iff doc hread).mp h.accepted, (met_iff doc).mp h.met⟩
    · intro h
      have hmet := (met_iff doc).mpr h.rests
      -- without a call what is installed is still what was
      refine ⟨fun hcalls hresult r hasks happlies => ?_,
        (accepted_iff doc hread).mpr h.accepted, hmet⟩
      have hrun := (isResult_install.mp hresult).1
      rw [install_eq_runs hrun] at hcalls hmet
      rw [← env_of_calls hcalls]
      rw [install_eq_runs hrun] at hresult
      exact hmet hresult r hasks happlies

/-! ## Runs with small packages -/

abbrev pkgB : Requirement Nat Text := { name := ['b'] }

/-- `a`, with its extra `x`. -/
abbrev pkgA : Requirement Nat Text := { name := ['a'], extras := [['x']] }

/-- A marker is `extra == "x"`, for some `x`. -/
def python : Python Nat Nat Text where
  parse text := if text = ['b'] then some pkgB
    else if text = "a[x]".toList then some pkgA else none
  contains least version := least ≤ version
  evaluate marker extra := marker = extra

/-- The index has `b` alone. -/
def onlinePip : Pip Nat Nat Text where
  asks := python.parse
  reads _ := []
  holds _ _ := true
  run env call :=
    if call.requirements = [['b']] ∧ call.file.isNone then
      { code := 0, out := "Successfully installed b-1".toList
        env := fun name => if name = ['b'] then some { version := 1 } else env name }
    else { code := 1, out := "ERROR: No matching distribution found".toList, env := env }

/-- `more.txt` asks for `b`. -/
def offlinePip : Pip Nat Nat Text where
  asks := python.parse
  reads file := if file.content = "-r more.txt".toList then [pkgB] else []
  holds _ _ := true
  run env _ := { code := 1, out := "NewConnectionError".toList, env := env }

theorem accepts_parsed (text : Text) (r : Requirement Nat Text) (h : python.parse text = some r) :
    (python.parse text).isSome := by
  rw [h]
  rfl

theorem onlinePip_documented : Documented python onlinePip where
  accepts := accepts_parsed
  installs env call hcode _ r hr _ := by
    by_cases hcall : call.requirements = [['b']] ∧ call.file.isNone
    · have hhanded : onlinePip.handed call = [pkgB] := by
        rw [Pip.handed, hcall.1, Option.isNone_iff_eq_none.mp hcall.2]
        rfl
      obtain rfl : r = pkgB := List.mem_singleton.mp (hhanded ▸ hr)
      have hb : (onlinePip.run env call).env ['b'] = some { version := 1 } := by
        have hrun : (onlinePip.run env call).env =
            fun name => if name = ['b'] then some { version := 1 } else env name :=
          congrArg Ran.env (if_pos hcall)
        rw [hrun]
        rfl
      refine (Requirement.settled_iff _ _ _).mpr ⟨⟨_, hb, ?_⟩, ?_, ?_⟩
      · intro s hs
        cases hs
      · intro dist url _ hurl
        cases hurl
      · rintro needed ⟨dist, hdist, hmem, -⟩
        obtain rfl := Option.some.inj (hb.symm.trans hdist)
        exact absurd hmem List.not_mem_nil
    · have hfailed : (onlinePip.run env call).code = 1 := congrArg Ran.code (if_neg hcall)
      rw [hfailed] at hcode
      exact absurd hcode (by decide)

theorem offlinePip_documented : Documented python offlinePip where
  accepts := accepts_parsed
  installs _ _ hcode := by
    change (1 : Int) = 0 at hcode
    exact absurd hcode (by decide)

theorem agrees_iff_onlinePip :
    Agrees python onlinePip (fun _ => none) { requirements := [['b']] }
      (install python onlinePip (fun _ => none) { requirements := [['b']] }) := by
  refine (agrees_iff onlinePip_documented).mpr fun asked hread => ?_
  obtain rfl : { reqs := [['b']] } = asked := Option.some.inj hread
  refine ⟨fun text htext hparse => ?_, fun _ _ r hasks _ hsecured => absurd ?_ hsecured⟩
  · obtain rfl := List.mem_singleton.mp htext
    cases hparse
  · obtain ⟨text, htext, hasks⟩ | ⟨file, hfile, -⟩ := hasks
    · obtain rfl := List.mem_singleton.mp htext
      obtain rfl : pkgB = r := Option.some.inj hasks
      exact ⟨rfl, _, rfl, List.mem_cons_self⟩
    · cases hfile

/-- `a` is there, but not what its extra needs. -/
def withoutExtra : Environment Nat Nat Text := fun name =>
  if name = ['a'] then
    some { version := 1, requires := [{ name := ['b'], marker := some ['x'] }] }
  else none

def hashed : File :=
  { path := "requirements.txt".toList, content := "b==1 --hash=sha256:00".toList }

def nested : File := { path := "requirements.txt".toList, content := "-r more.txt".toList }

/-- An extra's needs are not looked at, a line with an option behind it is no argument, and without
the index the requirements behind an option line are taken for met. -/
theorem disagrees :
    (Documented python offlinePip ∧
      ¬Agrees python offlinePip withoutExtra { requirements := ["a[x]".toList] }
        (install python offlinePip withoutExtra { requirements := ["a[x]".toList] })) ∧
    ¬Agrees python offlinePip (fun _ => none) { requirementsFile := some hashed }
      (install python offlinePip (fun _ => none) { requirementsFile := some hashed }) ∧
    ¬Agrees python offlinePip (fun _ => none) { requirementsFile := some nested }
      (install python offlinePip (fun _ => none) { requirementsFile := some nested }) := by
  refine ⟨⟨offlinePip_documented, fun h => ?_⟩, fun h => ?_, fun h => ?_⟩
  · have hsettled := h.untouched rfl trivial pkgA (.inl ⟨_, List.mem_cons_self, rfl⟩) rfl
    have hneeds : pkgA.Needs python withoutExtra { name := ['b'], marker := some ['x'] } :=
      ⟨_, rfl, List.mem_cons_self, rfl⟩
    obtain ⟨⟨dist, hdist, -⟩, -⟩ := hsettled _ (.single hneeds)
    cases hdist
  · have haccepted := h.accepted _ List.mem_cons_self "b==1 --hash=sha256:00".toList
      (List.mem_cons_self)
    cases haccepted
  · have hsettled := h.met trivial pkgB (.inr ⟨nested, rfl, List.mem_cons_self⟩) rfl
    obtain ⟨⟨dist, hdist, -⟩, -⟩ := hsettled _ .refl
    cases hdist

end Jovian.PyInstall
