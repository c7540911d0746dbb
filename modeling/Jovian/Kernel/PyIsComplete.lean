import Jovian.Packages.PyInstall

/-!
# PyIsComplete — whether a Python cell may be run (`interpreter_py.cpp`)

`__carpo_run` parses a cell as a module, takes its last expression out to show its value, and
compiles both parts with top-level `await` allowed. `__carpo_is_complete` asks `codeop`, which
compiles the same text as one interactive statement, with no such flag. Python's own compiler is
given from outside (`Python`), with what its documentation says of it (`Documented`).

* **`answers_iff`** — for which texts the answers are those of a run: a cell of several statements, or
  one that needs the flag, is told invalid and runs.
-/

namespace Jovian.PyIsComplete

open PyInstall (strip)

abbrev Text := List Char

/-! ## Python -/

/-- What an exception is an instance of. -/
inductive Kind where
  | syntaxError | overflowError | valueError
  /-- None of these. -/
  | other
deriving DecidableEq

/-- `except (SyntaxError, OverflowError, ValueError)` -/
def Kind.caught (k : Kind) : Bool := k ≠ .other

structure Raised where
  kind : Kind
  /-- `type(e).__name__` -/
  name : String
  /-- `str(e)` -/
  text : String
  /-- `traceback.format_exception` -/
  lines : List String
deriving DecidableEq

structure Python (Stmt Expr Code Value G : Type) where
  /-- `ast.parse(code, mode="exec")`, and its body. -/
  parse : Text → Except Raised (List Stmt)
  /-- The `value` of an `ast.Expr`. -/
  expr : Stmt → Option Expr
  /-- `compile(tree, "<carpo>", "exec", flags=flags)` -/
  compileExec : List Stmt → Except Raised Code
  /-- `compile(value_expr, "<carpo>", "eval", flags=flags)` -/
  compileEval : Expr → Except Raised Code
  /-- `compile(source, "<input>", "single")`, with the flags of `codeop`. -/
  compileSingle : Text → Except Raised Code
  /-- `codeop` takes what is wrong with the source as input that goes on. -/
  unfinished : Text → Bool
  /-- `_carpo_evaluate`, on the session's loop where the code awaits. -/
  evaluate : Code → G → Except Raised Value × G
  /-- `result is not None` -/
  shown : Value → Bool
  repr : Value → G → Except Raised String × G

variable {Stmt Expr Code Value G : Type} (py : Python Stmt Expr Code Value G)

/-! ## Running a cell -/

/-- What raised the exception of a run. -/
inductive Stage where
  /-- `ast.parse` or `compile`: the text itself. -/
  | text
  | execution
deriving DecidableEq

structure Run (Code G : Type) where
  /-- What was evaluated, in order. -/
  ran : List Code
  globals : G
  raised : Option (Stage × Raised) := none
  hasResult : Bool := false
  resultRepr : String := ""

/-- The tuple `__carpo_run` returns. -/
structure Reply where
  status : String
  hasResult : Bool
  resultRepr : String
  ename : String := ""
  evalue : String := ""
  traceback : List String := []

def Run.reply (r : Run Code G) : Reply :=
  match r.raised with
  | none => { status := "ok", hasResult := r.hasResult, resultRepr := r.resultRepr }
  | some (_, e) =>
    { status := "error", hasResult := r.hasResult, resultRepr := r.resultRepr, ename := e.name,
      evalue := e.text, traceback := e.lines }

/-- `trailing_expr`: the last statement, where it is an expression. -/
def trailing (body : List Stmt) : Option Expr := body.getLast?.bind py.expr

/-- What is left of the body without it. -/
def front (body : List Stmt) : List Stmt := if (trailing py body).isSome then body.dropLast else body

def runTrailing (ran : List Code) (g : G) : Option Expr → Run Code G
  | none => { ran, globals := g }
  | some e =>
    match py.compileEval e with
    | .error x => { ran, globals := g, raised := some (.text, x) }
    | .ok code =>
      match py.evaluate code g with
      | (.error x, g) => { ran := ran ++ [code], globals := g, raised := some (.execution, x) }
      | (.ok value, g) =>
        if py.shown value = false then { ran := ran ++ [code], globals := g }
        else match py.repr value g with
          | (.error x, g) =>
            { ran := ran ++ [code], globals := g, raised := some (.execution, x), hasResult := true }
          | (.ok s, g) => { ran := ran ++ [code], globals := g, hasResult := true, resultRepr := s }

/-- `__carpo_run(code, g)`. The session's event loop, which it sets first, is not modelled. -/
def run (code : Text) (g : G) : Run Code G :=
  match py.parse code with
  | .error x => { ran := [], globals := g, raised := some (.text, x) }
  | .ok body =>
    if front py body = [] then runTrailing py [] g (trailing py body)
    else match py.compileExec (front py body) with
      | .error x => { ran := [], globals := g, raised := some (.text, x) }
      | .ok code =>
        match py.evaluate code g with
        | (.error x, g) => { ran := [code], globals := g, raised := some (.execution, x) }
        | (.ok _, g) => runTrailing py [code] g (trailing py body)

/-- The run fails with a syntax error of its text; one that the text raises when it runs is none. -/
def SyntaxFailure (r : Run Code G) : Prop := ∃ e, r.raised = some (.text, e) ∧ e.kind = .syntaxError

/-! ## Asking `codeop` -/

/-- Only blank lines and comments, as `codeop` tells them. -/
def onlyComments (code : Text) : Bool :=
  (code.splitOn '\n').all fun line => (strip line).head?.all (· = '#')

/-- `codeop.compile_command(code)`; `none` is code that is not complete. -/
def compileCommand (code : Text) : Except Raised (Option Code) :=
  let source := if onlyComments code then "pass".toList else code
  if py.unfinished source then .ok none else (py.compileSingle source).map some

inductive Answer where
  | complete | incomplete | invalid
deriving DecidableEq

/-- `__carpo_is_complete(code)` -/
def isComplete (code : Text) : Except Raised Answer :=
  match compileCommand py code with
  | .error e => if e.kind.caught then .ok .invalid else .error e
  | .ok none => .ok .incomplete
  | .ok (some _) => .ok .complete

/-- The answer is that of a run. -/
def Agrees (code : Text) (g : G) : Prop :=
  (isComplete py code = .ok .invalid → SyntaxFailure (run py code g) ∧ (run py code g).ran = []) ∧
    (isComplete py code = .ok .complete → ¬ SyntaxFailure (run py code g))

/-! ## What is known of Python -/

/-- `several`: the text holds more than one interactive statement; `compilePlain`: a module compiled
without `PyCF_ALLOW_TOP_LEVEL_AWAIT`. -/
structure Documented (several : Text → Bool) (compilePlain : List Stmt → Except Raised Code) :
    Prop where
  /-- `pass` is a statement. -/
  pass : py.unfinished "pass".toList = false ∧ ∃ c, py.compileSingle "pass".toList = .ok c
  /-- A text that is no module is no statement either. -/
  single_parse : ∀ {t e}, onlyComments t = false → py.unfinished t = false → py.parse t = .error e →
    ∃ e', py.compileSingle t = .error e' ∧ e'.kind = e.kind
  /-- More than one interactive statement is a syntax error. -/
  single_several : ∀ {t body}, py.unfinished t = false → py.parse t = .ok body → several t = true →
    ∃ e, py.compileSingle t = .error e ∧ e.kind = .syntaxError
  /-- One is compiled as the module it is, with no top-level `await`. -/
  single_ok : ∀ {t body c}, onlyComments t = false → py.unfinished t = false → py.parse t = .ok body →
    several t = false → compilePlain body = .ok c → ∃ c', py.compileSingle t = .ok c'
  single_error : ∀ {t body e}, onlyComments t = false → py.unfinished t = false →
    py.parse t = .ok body → several t = false → compilePlain body = .error e →
    ∃ e', py.compileSingle t = .error e' ∧ e'.kind = e.kind
  /-- The flag allows more, and forbids nothing. -/
  flag : ∀ {body c}, compilePlain body = .ok c → ∃ c', py.compileExec body = .ok c'
  /-- The parts of a module that compiles compile. -/
  parts : ∀ {body c}, py.compileExec body = .ok c → (∃ c', py.compileExec (front py body) = .ok c') ∧
    ∀ e, trailing py body = some e → ∃ c', py.compileEval e = .ok c'

/-! ## A run's syntax errors -/

/-- The compile of what is run first: the front, or else the last expression. -/
def first (body : List Stmt) : Except Raised Unit :=
  if front py body = [] then
    match trailing py body with
    | none => .ok ()
    | some e => (py.compileEval e).map fun _ => ()
  else (py.compileExec (front py body)).map fun _ => ()

/-- The part that is run first has a syntax error. -/
def FirstFails (body : List Stmt) : Prop := ∃ e, first py body = .error e ∧ e.kind = .syntaxError

/-- The front runs through, and the last expression has one. -/
def LastFails (body : List Stmt) (g : G) : Prop :=
  front py body ≠ [] ∧ ∃ c v e x, py.compileExec (front py body) = .ok c ∧
    (py.evaluate c g).1 = .ok v ∧ trailing py body = some e ∧ py.compileEval e = .error x ∧
    x.kind = .syntaxError

theorem syntaxFailure_runTrailing {ran : List Code} {g : G} {e? : Option Expr} :
    SyntaxFailure (runTrailing py ran g e?) ↔
      ∃ e x, e? = some e ∧ py.compileEval e = .error x ∧ x.kind = .syntaxError := by
  cases e? with
  | none => simp [runTrailing, SyntaxFailure]
  | some e =>
    rw [runTrailing]
    cases hcompile : py.compileEval e with
    | error x => simp [SyntaxFailure, hcompile]
    | ok code =>
      apply iff_of_false
      · rintro ⟨x, hx, -⟩
        simp only at hx
        split at hx
        · simp at hx
        · split at hx
          · simp at hx
          · split at hx <;> simp at hx
      · rintro ⟨_, x, ⟨⟩, hx, -⟩
        rw [hcompile] at hx
        cases hx

theorem ran_runTrailing {ran : List Code} {g : G} {e? : Option Expr}
    (h : SyntaxFailure (runTrailing py ran g e?)) : (runTrailing py ran g e?).ran = ran := by
  obtain ⟨e, x, rfl, hcompile, -⟩ := (syntaxFailure_runTrailing py).1 h
  rw [runTrailing, hcompile]

/-- Which runs fail with a syntax error, of a text that is a module. -/
theorem syntaxFailure_run_ok {code : Text} {body : List Stmt} (hparse : py.parse code = .ok body)
    (g : G) : SyntaxFailure (run py code g) ↔ FirstFails py body ∨ LastFails py body g := by
  rw [run, hparse, FirstFails, LastFails, first]
  by_cases hfront : front py body = []
  · simp only [hfront, if_true, syntaxFailure_runTrailing, ne_eq, not_true_eq_false, false_and, or_false]
    cases trailing py body with
    | none => simp
    | some e =>
      cases hcompile : py.compileEval e with
      | error x => simp [hcompile, Except.map]
      | ok c => simp [hcompile, Except.map]
  · simp only [hfront, if_false, ne_eq, not_false_eq_true, true_and]
    cases hcompile : py.compileExec (front py body) with
    | error x => simp [SyntaxFailure, Except.map]
    | ok c =>
      cases heval : py.evaluate c g with
      | mk result g' =>
        cases result with
        | error x => simp [SyntaxFailure, Except.map, heval]
        | ok v => simp [syntaxFailure_runTrailing, Except.map, heval]

/-- Those that fail before anything of it runs. -/
theorem fails_first_iff {code : Text} {body : List Stmt} (hparse : py.parse code = .ok body) (g : G) :
    SyntaxFailure (run py code g) ∧ (run py code g).ran = [] ↔ FirstFails py body := by
  constructor
  · rintro ⟨hfail, hran⟩
    rcases (syntaxFailure_run_ok py hparse g).1 hfail with hfirst | ⟨hfront, c, v, e, x, hc, hv, -⟩
    · exact hfirst
    · -- the front was evaluated before the last expression was compiled
      exfalso
      have hrun : (run py code g).ran = [c] := by
        rw [run, hparse] at hfail ⊢
        simp only [hfront, if_false, hc] at hfail ⊢
        cases heval : py.evaluate c g with
        | mk result g' =>
          rw [heval] at hv hfail
          cases hv
          exact ran_runTrailing py hfail
      rw [hrun] at hran
      cases hran
  · intro hfirst
    have hfail := (syntaxFailure_run_ok py hparse g).2 (.inl hfirst)
    refine ⟨hfail, ?_⟩
    obtain ⟨x, hx, -⟩ := hfirst
    rw [run, hparse] at hfail ⊢
    rw [first] at hx
    by_cases hfront : front py body = []
    · simp only [hfront, if_true] at hfail ⊢
      exact ran_runTrailing py hfail
    · simp only [hfront, if_false] at hx ⊢
      cases hcompile : py.compileExec (front py body) with
      | error x => rfl
      | ok c =>
        rw [hcompile] at hx
        cases hx

theorem run_error {code : Text} {e : Raised} (hparse : py.parse code = .error e) (g : G) :
    run py code g = { ran := [], globals := g, raised := some (.text, e) } := by
  rw [run, hparse]

/-! ## When the answer is that of a run -/

/-- One statement at most, that compiles without the flag. -/
def CompilesAlone (several : Text → Bool) (compilePlain : List Stmt → Except Raised Code) (code : Text)
    (body : List Stmt) : Prop :=
  several code = false ∧ ∀ e, compilePlain body = .error e → e.kind = .other

/-- The texts that are answered as they run. -/
def Agreeable (several : Text → Bool) (compilePlain : List Stmt → Except Raised Code) (code : Text)
    (g : G) : Prop :=
  match py.parse code with
  | .error e =>
    if onlyComments code then e.kind ≠ .syntaxError
    else py.unfinished code = true ∨ e.kind = .syntaxError ∨ e.kind = .other
  | .ok body =>
    if onlyComments code then ¬ FirstFails py body ∧ ¬ LastFails py body g
    else py.unfinished code = true ∨ CompilesAlone several compilePlain code body ∨ FirstFails py body

section

variable {several : Text → Bool} {compilePlain : List Stmt → Except Raised Code}

theorem isComplete_onlyComments (h : Documented py several compilePlain) {code : Text}
    (hblank : onlyComments code = true) : isComplete py code = .ok .complete := by
  obtain ⟨hpass, c, hc⟩ := h.pass
  rw [isComplete, compileCommand, if_pos hblank, hpass, hc]
  rfl

theorem isComplete_unfinished {code : Text} (hcode : onlyComments code = false)
    (hopen : py.unfinished code = true) : isComplete py code = .ok .incomplete := by
  rw [isComplete, compileCommand, hcode]
  simp [hopen]

/-- The answer, from the compile of the one statement. -/
theorem isComplete_single {code : Text} (hcode : onlyComments code = false)
    (hopen : py.unfinished code = false) : isComplete py code =
      match py.compileSingle code with
      | .error e => if e.kind.caught then .ok .invalid else .error e
      | .ok _ => .ok .complete := by
  rw [isComplete, compileCommand, hcode]
  simp only [Bool.false_eq_true, if_false, hopen]
  cases py.compileSingle code <;> rfl

/-- A complete statement has no syntax error when it runs. -/
theorem not_fails_of_plain (h : Documented py several compilePlain) {body : List Stmt} {c : Code}
    (hplain : compilePlain body = .ok c) (g : G) : ¬ (FirstFails py body ∨ LastFails py body g) := by
  obtain ⟨c', hc'⟩ := h.flag hplain
  obtain ⟨⟨c₁, hfront⟩, hlast⟩ := h.parts hc'
  rintro (⟨x, hx, -⟩ | ⟨-, _, _, e, x, -, -, htrail, hx, -⟩)
  · rw [first, hfront] at hx
    split at hx
    · split at hx
      · cases hx
      · next e htrail =>
        obtain ⟨c₂, hc₂⟩ := hlast e htrail
        rw [hc₂] at hx
        cases hx
    · cases hx
  · obtain ⟨c₂, hc₂⟩ := hlast e htrail
    rw [hc₂] at hx
    cases hx

/-- **`__carpo_is_complete` against `__carpo_run`**: the answer is that of a run for the texts that
are one statement and need no flag, that are not finished, or whose first part has a syntax error; and
for a text of only comments where it has none. -/
theorem answers_iff (h : Documented py several compilePlain) (code : Text) (g : G) :
    Agrees py code g ↔ Agreeable py several compilePlain code g := by
  rw [Agrees, Agreeable]
  cases hblank : onlyComments code with
  | true =>
    rw [isComplete_onlyComments py h hblank]
    simp only [Except.ok.injEq, reduceCtorEq, false_implies, true_and, true_implies, if_true]
    cases hparse : py.parse code with
    | error e => simp [run_error py hparse, SyntaxFailure]
    | ok body => simp only [syntaxFailure_run_ok py hparse, not_or]
  | false =>
    cases hopen : py.unfinished code with
    | true =>
      rw [isComplete_unfinished py hblank hopen]
      cases py.parse code <;> simp
    | false =>
      rw [isComplete_single py hblank hopen]
      cases hparse : py.parse code with
      | error e =>
        obtain ⟨e', hsingle, hkind⟩ := h.single_parse hblank hopen hparse
        rw [hsingle, run_error py hparse]
        cases he : e.kind <;> simp [Kind.caught, SyntaxFailure, hkind, he]
      | ok body =>
        have hiff := fails_first_iff py hparse g
        simp only [Bool.false_eq_true, if_false, false_or]
        by_cases hsev : several code = true
        · obtain ⟨e, hsingle, hkind⟩ := h.single_several hopen hparse hsev
          rw [hsingle, hiff]
          simp [Kind.caught, hkind, CompilesAlone, hsev]
        · have hone : several code = false := by simpa using hsev
          cases hplain : compilePlain body with
          | ok c =>
            obtain ⟨c', hsingle⟩ := h.single_ok hblank hopen hparse hone hplain
            have hruns := not_fails_of_plain py h hplain g
            rw [hsingle, syntaxFailure_run_ok py hparse]
            simp [CompilesAlone, hone, hplain, hruns]
          | error e =>
            obtain ⟨e', hsingle, hkind⟩ := h.single_error hblank hopen hparse hone hplain
            rw [hsingle, hiff]
            cases he : e.kind <;> simp [Kind.caught, hkind, he, CompilesAlone, hone, hplain]

end

/-! ## Three cells

A part of Python: a statement on each line, `name = value` or an expression. -/

namespace Lines

def invalid (text : String) : Raised := ⟨.syntaxError, "SyntaxError", text, []⟩

def parse (code : Text) : Except Raised (List Text) :=
  if '$' ∈ code then .error (invalid "invalid syntax") else .ok ((code.splitOn '\n').filter (· ≠ []))

def several (code : Text) : Bool :=
  match parse code with
  | .error _ => false
  | .ok body => 1 < body.length

def compilePlain (body : List Text) : Except Raised (List Text) :=
  if body.any ("await ".toList.isPrefixOf ·) then .error (invalid "'await' outside function") else .ok body

def python : Python Text Text (List Text) Unit Unit where
  parse := parse
  expr line := if '=' ∈ line then none else some line
  compileExec := .ok
  compileEval e := .ok [e]
  compileSingle code :=
    match parse code with
    | .error e => .error e
    | .ok body =>
      if 1 < body.length then
        .error (invalid "multiple statements found while compiling a single statement")
      else compilePlain body
  unfinished _ := false
  evaluate _ g := (.ok (), g)
  shown _ := false
  repr _ g := (.ok "", g)

theorem documented : Documented python several compilePlain where
  pass := ⟨rfl, _, rfl⟩
  single_parse := by
    rintro t e - - hparse
    exact ⟨e, by simp [python, show parse t = .error e from hparse], rfl⟩
  single_several := by
    intro t body _ hparse hsev
    have hparse' : parse t = .ok body := hparse
    have hmany : 1 < body.length := by simpa [several, hparse'] using hsev
    exact ⟨_, by simp [python, hparse', hmany]; rfl, rfl⟩
  single_ok := by
    intro t body c _ _ hparse hsev hplain
    have hparse' : parse t = .ok body := hparse
    have hone : ¬ 1 < body.length := by simpa [several, hparse'] using hsev
    exact ⟨c, by simp [python, hparse', hone, hplain]⟩
  single_error := by
    intro t body e _ _ hparse hsev hplain
    have hparse' : parse t = .ok body := hparse
    have hone : ¬ 1 < body.length := by simpa [several, hparse'] using hsev
    exact ⟨e, by simp [python, hparse', hone, hplain], rfl⟩
  flag := fun _ => ⟨_, rfl⟩
  parts := fun _ => ⟨⟨_, rfl⟩, fun _ _ => ⟨_, rfl⟩⟩

end Lines

theorem answers_iff_statement : Agrees Lines.python "a = 1".toList () ↔
    Agreeable Lines.python Lines.several Lines.compilePlain "a = 1".toList () :=
  answers_iff Lines.python Lines.documented "a = 1".toList ()

/-- Two statements, and one that awaits, run and are told invalid. -/
theorem runs_and_is_invalid : Documented Lines.python Lines.several Lines.compilePlain ∧
    ¬ Agrees Lines.python "a = 1\nb = 2".toList () ∧ ¬ Agrees Lines.python "await a".toList () := by
  refine ⟨Lines.documented, fun h => ?_, fun h => ?_⟩
  · obtain ⟨⟨e, he, -⟩, -⟩ := h.1 rfl
    cases he
  · obtain ⟨⟨e, he, -⟩, -⟩ := h.1 rfl
    cases he

end Jovian.PyIsComplete
