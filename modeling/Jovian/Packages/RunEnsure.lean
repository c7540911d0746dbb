import Jovian.Lib.Lines
import Jovian.Lib.Transition

/-!
# RunEnsure — what the client reads of an install

`.jv.pkg.ensure` says how it ends in lines on stdout. `runEnsure` follows the session's stream
messages: it keeps the part of a line that has not ended, of either stream, and takes each line.

* **`outcome_of_stdout`** — the outcome is what stdout's lines say, in the runs in which no message
  of one stream comes amid a line of the other and no line of stderr says how the install ends.
-/

namespace Jovian.RunEnsure

open Lines (Text)

/-! ## The lines -/

structure RPackageResult where
  previousVersion : Option Text
  version : Option Text
  installed : List Text
  offline : Bool
deriving DecidableEq

structure RPackagePlan where
  install : List Text
  replace : List Text
deriving DecidableEq

/-- How the install ended, by its lines. -/
structure Verdict where
  failure : Option Text := none
  offline : Option Text := none
  result : Option RPackageResult := none
  plan : Option RPackagePlan := none
deriving DecidableEq

structure RunOutcome extends Verdict where
  /-- What else was printed. -/
  other : List Text := []
deriving DecidableEq

/-- The text after a start, where the line has it. -/
def after (start : String) (line : Text) : Option Text :=
  if start.toList.isPrefixOf line then some (line.drop start.length) else none

inductive Line where
  | error (why : Text)
  | offline (why : Text)
  | plan (text : Text)
  | result (text : Text)
  | progress (text : Text)
  | other (text : Text)

def read (line : Text) : Line :=
  match after "JOVIAN_PKG_ERROR: " line with
  | some why => .error why
  | none => match after "JOVIAN_PKG_OFFLINE: " line with
    | some why => .offline why
    | none => match after "JOVIAN_PKG_PLAN: " line with
      | some text => .plan text
      | none => match after "JOVIAN_PKG_RESULT: " line with
        | some text => .result text
        | none => match after "JOVIAN_PKG: " line with
          | some text => .progress text
          | none => .other line

/-- A list of packages, `-` for none. -/
def packageList (value : Option Text) : List Text :=
  match value with
  | none => []
  | some value => if value ≠ [] ∧ value ≠ ['-'] then value.splitOn ',' else []

def known (version : Option Text) : Option Text :=
  version.filter fun v => v ≠ [] ∧ v ≠ "NA".toList

def parsePlan (text : Text) : RPackagePlan :=
  let fields := text.splitOn ' '
  { install := packageList fields[0]?, replace := packageList fields[1]? }

def parseResult (text : Text) : RPackageResult :=
  let fields := text.splitOn ' '
  { previousVersion := known fields[0]?, version := known fields[1]?,
    installed := packageList fields[2]?, offline := fields[3]? = some "offline".toList }

/-- JavaScript's white space. -/
def isSpace (c : Char) : Bool :=
  ('\t' ≤ c ∧ c ≤ '\r') ∨ c = ' ' ∨ c.toNat ∈ [0xA0, 0x1680, 0x2028, 0x2029, 0x202F, 0x205F, 0x3000, 0xFEFF] ∨
    (0x2000 ≤ c.toNat ∧ c.toNat ≤ 0x200A)

def trim (text : Text) : Text := ((text.dropWhile isSpace).reverse.dropWhile isSpace).reverse

/-- The lines are also passed on, with whether the script says them. -/
structure Taken where
  outcome : RunOutcome := {}
  onLine : List (Text × Bool) := []
deriving DecidableEq

def Taken.take (t : Taken) (line : Text) : Taken :=
  match read line with
  | .error why => { t with outcome.failure := some why }
  | .offline why => { t with outcome.offline := some why }
  | .plan text => { t with outcome.plan := some (parsePlan text) }
  | .result text => { t with outcome.result := some (parseResult text) }
  | .progress text => { t with onLine := t.onLine ++ [(text, true)] }
  | .other line =>
    if trim line = [] then t
    else
      let other := t.outcome.other ++ [trim line]
      { outcome.toVerdict := t.outcome.toVerdict
        outcome.other := if 400 < other.length then other.drop 200 else other
        onLine := t.onLine ++ [(trim line, false)] }

/-! ## The messages -/

inductive StreamName where
  | stdout
  | stderr
deriving DecidableEq

inductive Message where
  | stream (name : StreamName) (text : Text)
  /-- Any other type of message, or one without a text. -/
  | other
deriving DecidableEq

structure Listener where
  taken : Taken := {}
  /-- The part of a line that has not ended. -/
  held : Text := []
deriving DecidableEq

def Listener.listen (l : Listener) : Message → Listener
  | .stream _ text =>
    let lines := Lines.split (l.held ++ text)
    { taken := lines.1.foldl Taken.take l.taken, held := lines.2 }
  | .other => l

/-- What `session.execute` resolves with. -/
structure Ran where
  success : Bool
  error : Option Text := none

/-- Neither a reason of R's nor an empty one. -/
def isMissing (reason : Option Text) : Bool := reason = none ∨ reason = some []

/-- A run that failed has a reason. -/
def RunOutcome.returned (o : RunOutcome) (ran : Ran) : RunOutcome :=
  if !ran.success ∧ isMissing o.failure ∧ isMissing o.offline then
    { o with failure := some (ran.error.getD "the install stopped".toList) }
  else o

/-- What is returned once the execution is over. -/
def Taken.conclude (t : Taken) (rest : Text) (ran : Ran) : RunOutcome :=
  (if rest ≠ [] then t.take rest else t).outcome.returned ran

/-! ## The run, and what R wrote -/

structure World where
  listener : Listener := {}
  /-- All of it, so far. -/
  out : Text := []
  err : Text := []
deriving DecidableEq

def World.write (w : World) : Message → World
  | .stream .stdout text => { w with out := w.out ++ text }
  | .stream .stderr text => { w with err := w.err ++ text }
  | .other => w

def step (w : World) (m : Message) : World :=
  { w.write m with listener := w.listener.listen m }

def machine : Transition.System World Message := .ofFn {} step

/-- What `runEnsure` returns when the execution is over. -/
def World.outcome (w : World) (ran : Ran) : RunOutcome := w.listener.taken.conclude w.listener.held ran

/-- What the lines of a text say, the last one too where it has not ended. -/
def outcomeOf (text : Text) (ran : Ran) : RunOutcome :=
  Taken.conclude ((Lines.split text).1.foldl Taken.take {}) (Lines.split text).2 ran

/-- The line says how the install ends. -/
def isVerdict (line : Text) : Bool :=
  match read line with
  | .error _ | .offline _ | .plan _ | .result _ => true
  | .progress _ | .other _ => false

def isPlain (text : Text) : Bool :=
  (Lines.split text).1.all (!isVerdict ·) && !isVerdict (Lines.split text).2

/-- No line of the other stream is broken, and what is on stderr says nothing of the install. -/
def Apart (w : World) : Message → Bool
  | .stream .stdout _ => (Lines.split w.err).2 = []
  | .stream .stderr text => (Lines.split w.out).2 = [] && isPlain (w.err ++ text)
  | .other => true

/-! ## Runs whose streams are apart -/

variable {t t' : Taken} {line : Text} {w : World}

/-- What a line does to the verdict depends on nothing else. -/
theorem take_congr (h : t.outcome.toVerdict = t'.outcome.toVerdict) :
    (t.take line).outcome.toVerdict = (t'.take line).outcome.toVerdict := by
  unfold Taken.take
  cases read line with
  | error | offline | plan | result => simp only [h]
  | progress => exact h
  | other text =>
    dsimp only
    split <;> exact h

theorem foldl_take_congr {lines : List Text} (h : t.outcome.toVerdict = t'.outcome.toVerdict) :
    (lines.foldl Taken.take t).outcome.toVerdict = (lines.foldl Taken.take t').outcome.toVerdict := by
  induction lines generalizing t t' with
  | nil => exact h
  | cons line lines ih => exact ih (take_congr h)

theorem take_plain (h : isVerdict line = false) :
    (t.take line).outcome.toVerdict = t.outcome.toVerdict := by
  unfold isVerdict at h
  unfold Taken.take
  cases hread : read line with
  | error | offline | plan | result => simp [hread] at h
  | progress => rfl
  | other text =>
    dsimp only
    split <;> rfl

theorem foldl_take_plain {lines : List Text} (h : lines.all (!isVerdict ·) = true) :
    (lines.foldl Taken.take t).outcome.toVerdict = t.outcome.toVerdict := by
  induction lines generalizing t with
  | nil => rfl
  | cons line lines ih =>
    rw [List.all_cons, Bool.and_eq_true] at h
    exact (ih h.2).trans (take_plain (by simpa using h.1))

theorem returned_congr {o o' : RunOutcome} (h : o.toVerdict = o'.toVerdict) (ran : Ran) :
    (o.returned ran).toVerdict = (o'.returned ran).toVerdict := by
  simp only [RunOutcome.returned, h]
  split
  · rfl
  · exact h

theorem conclude_congr {rest : Text} (h : t.outcome.toVerdict = t'.outcome.toVerdict) (ran : Ran) :
    (t.conclude rest ran).toVerdict = (t'.conclude rest ran).toVerdict := by
  refine returned_congr ?_ ran
  split
  · exact take_congr h
  · exact h

/-- A rest that says nothing of the install may be there or not. -/
theorem conclude_plain {rest : Text} (h : isVerdict rest = false) (ran : Ran) :
    (t.conclude rest ran).toVerdict = (t.conclude [] ran).toVerdict := by
  refine returned_congr ?_ ran
  rw [if_neg (not_not.mpr rfl)]
  split
  · exact take_plain h
  · rfl

/-- What is held is of one stream, and the verdict is stdout's. -/
structure Kept (w : World) : Prop where
  held : ((Lines.split w.err).2 = [] ∧ w.listener.held = (Lines.split w.out).2) ∨
    ((Lines.split w.out).2 = [] ∧ w.listener.held = (Lines.split w.err).2)
  plain : isPlain w.err = true
  verdict : w.listener.taken.outcome.toVerdict =
    ((Lines.split w.out).1.foldl Taken.take {}).outcome.toVerdict

theorem Kept.held_stdout (h : Kept w) (herr : (Lines.split w.err).2 = []) :
    w.listener.held = (Lines.split w.out).2 := by
  rcases h.held with ⟨-, hheld⟩ | ⟨hout, hheld⟩
  · exact hheld
  · rw [hheld, herr, hout]

theorem Kept.held_stderr (h : Kept w) (hout : (Lines.split w.out).2 = []) :
    w.listener.held = (Lines.split w.err).2 := by
  rcases h.held with ⟨herr, hheld⟩ | ⟨-, hheld⟩
  · rw [hheld, hout, herr]
  · exact hheld

theorem Kept.stdout (h : Kept w) {text : Text} (herr : (Lines.split w.err).2 = []) :
    Kept (step w (.stream .stdout text)) := by
  have hheld := h.held_stdout herr
  have hsplit := Lines.split_append w.out text
  refine ⟨.inl ⟨herr, ?_⟩, h.plain, ?_⟩
  · simp only [step, World.write, Listener.listen, hheld, hsplit]
  · simp only [step, World.write, Listener.listen, hheld, hsplit, List.foldl_append]
    exact foldl_take_congr h.verdict

theorem Kept.stderr (h : Kept w) {text : Text} (hout : (Lines.split w.out).2 = [])
    (hplain : isPlain (w.err ++ text) = true) : Kept (step w (.stream .stderr text)) := by
  have hheld := h.held_stderr hout
  have hlines : (Lines.split ((Lines.split w.err).2 ++ text)).1.all (!isVerdict ·) = true := by
    rw [isPlain, Lines.split_append, List.all_append] at hplain
    simp only [Bool.and_eq_true] at hplain
    exact hplain.1.2
  refine ⟨.inr ⟨hout, ?_⟩, hplain, ?_⟩
  · simp only [step, World.write, Listener.listen, hheld, Lines.split_append w.err text]
  · simp only [step, World.write, Listener.listen, hheld]
    exact (foldl_take_plain hlines).trans h.verdict

theorem kept_init : Kept {} where
  held := .inl ⟨rfl, rfl⟩
  plain := by decide
  verdict := rfl

/-- **The outcome is stdout's**, in the runs whose streams are apart. -/
theorem outcome_of_stdout (h : (machine.when fun w m => Apart w m = true).Reachable w) (ran : Ran) :
    (w.outcome ran).toVerdict = (outcomeOf w.out ran).toVerdict := by
  have hkept : Kept w := by
    refine Transition.System.invariant_ofFn kept_init ?_ h
    intro w m hw hapart
    cases m with
    | stream name text =>
      cases name with
      | stdout => exact hw.stdout (of_decide_eq_true hapart)
      | stderr =>
        obtain ⟨hout, hplain⟩ := Bool.and_eq_true_iff.mp hapart
        exact hw.stderr (of_decide_eq_true hout) hplain
    | other => exact hw
  have hconclude : (w.outcome ran).toVerdict = (Taken.conclude
      ((Lines.split w.out).1.foldl Taken.take {}) w.listener.held ran).toVerdict :=
    conclude_congr hkept.verdict ran
  rw [hconclude, outcomeOf]
  rcases hkept.held with ⟨-, hheld⟩ | ⟨hout, hheld⟩
  · rw [hheld]
  · have hplain := hkept.plain
    rw [isPlain, Bool.and_eq_true, Bool.not_eq_true', ← hheld] at hplain
    rw [hout, conclude_plain hplain.2]

/-- A line of stdout in two messages, and stderr's beside it. -/
def apartMessages : List Message :=
  [.stream .stderr "Loading\n".toList, .stream .stdout "JOVIAN_PKG: Checking\nJOVIAN_".toList,
    .stream .stdout "PKG_RESULT: NA 1.0 a,b online\r\n".toList, .other,
    .stream .stderr "Warning".toList]

theorem outcome_of_stdout_apartMessages :
    ((apartMessages.foldl step {}).outcome ⟨true, none⟩).toVerdict =
      (outcomeOf (apartMessages.foldl step {}).out ⟨true, none⟩).toVerdict :=
  outcome_of_stdout (Transition.System.reachable_of_allSteps (by decide +kernel)) _

/-- A warning comes between the two parts of the result's line. -/
def tornMessages : List Message :=
  [.stream .stdout "JOVIAN_PKG_RES".toList, .stream .stderr "Warning: x\n".toList,
    .stream .stdout "ULT: NA 1.0 a online\n".toList]

/-- A line of the protocol on stderr. -/
def echoedMessages : List Message :=
  [.stream .stdout "JOVIAN_PKG_RESULT: NA 1.0 a online\n".toList,
    .stream .stderr "JOVIAN_PKG_ERROR: none\n".toList]

/-- **A warning hides the result** that stdout says, and stderr can say that the install failed. -/
theorem warning_hides_result :
    (machine.Reachable (tornMessages.foldl step {}) ∧
      ((tornMessages.foldl step {}).outcome ⟨true, none⟩).result = none ∧
      (outcomeOf (tornMessages.foldl step {}).out ⟨true, none⟩).result =
        some ⟨none, some "1.0".toList, ["a".toList], false⟩) ∧
    machine.Reachable (echoedMessages.foldl step {}) ∧
      ((echoedMessages.foldl step {}).outcome ⟨true, none⟩).failure = some "none".toList ∧
      (outcomeOf (echoedMessages.foldl step {}).out ⟨true, none⟩).failure = none :=
  ⟨⟨Transition.System.reachable_foldl _ _ _, by decide +kernel, by decide +kernel⟩,
    Transition.System.reachable_foldl _ _ _, by decide +kernel, by decide +kernel⟩

end Jovian.RunEnsure
