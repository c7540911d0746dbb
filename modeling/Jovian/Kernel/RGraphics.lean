import Mathlib.Data.List.Basic

/-!
# RGraphics — a cell's plots (`graphics.R`, `repl.R`, `RInterpreter::readConsole`)

One device is open for the whole session. After each expression that was evaluated, and when the cell
is done, hera looks at it: a plot that changed since the last look is recorded, and the cell's plot
before it is sent unless the new one only adds to it. A silent cell is not looked at.
-/

namespace Jovian.RGraphics

/-! ## The session's device -/

/-- An entry of a display list: the name of what drew it, where there is one, and everything else. -/
structure Entry (α : Type) where
  name : Option String
  rest : α
deriving DecidableEq

def NON_VISUAL : List String := ["C_par", "C_layout", "palette", "palette2"]

def isVisual {α : Type} (entry : Entry α) : Bool :=
  match entry.name with
  | some name => !NON_VISUAL.any (· = name)
  | none => true

structure Device (α : Type) where
  /-- Which of the display lists it has had this is. -/
  page : Nat
  entries : List (Entry α)
deriving DecidableEq

/-- What an expression does on the session's device. -/
inductive Drawing (α : Type) where
  | entry (e : Entry α)
  /-- `plot.new()`, which starts a new display list. -/
  | newPage
deriving DecidableEq

variable {α : Type}

/-- R opens the device for the first of all. -/
def Device.draw (device : Option (Device α)) (d : Drawing α) : Option (Device α) :=
  let device := device.getD ⟨0, []⟩
  match d with
  | .entry e => some ⟨device.page, device.entries ++ [e]⟩
  | .newPage => some ⟨device.page + 1, []⟩

/-- `elara_display_list_id`: where the list is, and its last element. -/
def displayListId (device : Device α) : Option Nat × Nat :=
  (if device.entries = [] then none else some device.page, device.entries.length)

/-! ## hera's state -/

/-- `.jv.the` -/
structure State (α : Type) where
  device : Option (Device α) := none
  lastDisplayList : Option (Option Nat × Nat) := none
  lastSnapshot : Option (List (Entry α)) := none
  cellPlot : Option (List (Entry α)) := none
  /-- What the cell has sent so far. -/
  sent : List (List (Entry α)) := []

/-- `.jv.graphics.open_device` forgets the last look. -/
def State.draw (s : State α) (d : Drawing α) : State α :=
  let s := if s.device.isNone then { s with lastDisplayList := none, lastSnapshot := none } else s
  { s with device := Device.draw s.device d }

/-- What a look finds: whether the session's device is the current one (`dev.cur()`), and whether its
page is complete (`par("page")`). -/
structure Look where
  current : Bool
  complete : Bool
deriving DecidableEq

variable [DecidableEq α]

/-- `.jv.graphics.draws_same` -/
def drawsSame (old new : List (Entry α)) : Bool :=
  old = new ∨ old.filter isVisual = new.filter isVisual

/-- `.jv.graphics.builds_upon` -/
def buildsUpon (previous : Option (List (Entry α))) (current : List (Entry α)) : Bool :=
  match previous with
  | none => true
  | some previous => previous.length ≤ current.length ∧ current.take previous.length = previous

/-- `.jv.graphics.snapshot` -/
def snapshot (incomplete : Bool) (look : Look) (s : State α) : Option (List (Entry α)) × State α :=
  match s.device with
  | none => (none, s)
  | some device =>
    if !look.current then (none, s)
    else if !incomplete && !look.complete then (none, s)
    else
      let shown := displayListId device
      if s.lastDisplayList = some shown then (none, s)
      else
        let newPage := s.lastDisplayList.all fun last => shown.1 ≠ last.1
        let plot := device.entries
        let s := { s with lastDisplayList := some shown }
        if !plot.any isVisual then (none, s)
        else if !newPage && s.lastSnapshot.any (drawsSame · plot) then (none, s)
        else (some plot, { s with lastSnapshot := some plot })

/-- `.jv.graphics.send` -/
def State.send (s : State α) (plot : Option (List (Entry α))) : State α :=
  { s with sent := s.sent ++ plot.toList }

/-- `.jv.graphics.changed` -/
def State.changed (s : State α) (plot : List (Entry α)) : State α :=
  let s := if buildsUpon s.cellPlot plot then s else s.send s.cellPlot
  { s with cellPlot := some plot }

/-- The look both at the end of an expression and when the cell is done. -/
def lookAt (incomplete : Bool) (look : Look) (s : State α) : State α :=
  match snapshot incomplete look s with
  | (some plot, s) => s.changed plot
  | (none, s) => s

/-- `.jv.graphics.after_expression` -/
def afterExpression (look : Look) (s : State α) : State α := lookAt false look s

/-- `.jv.graphics.cell_done` -/
def cellDone (look : Look) (s : State α) : State α :=
  let s := lookAt true look s
  { s.send s.cellPlot with cellPlot := none }

/-! ## Cells -/

inductive Outcome where
  /-- And its value printed. -/
  | evaluated
  /-- Or interrupted. -/
  | failed
  /-- R failed to print its value, or was interrupted there. -/
  | failedPrinting
deriving DecidableEq

structure Expression (α : Type) where
  drawings : List (Drawing α)
  outcome : Outcome
  /-- What is found at its end. -/
  look : Look
deriving DecidableEq

structure Cell (α : Type) where
  silent : Bool
  expressions : List (Expression α)
  /-- What is found when it is done. -/
  look : Look
deriving DecidableEq

/-- `readConsole` where `checkGraphics` is set. -/
def checkGraphics (silent : Bool) (look : Look) (s : State α) : State α :=
  if silent then s else afterExpression look s

/-- `readConsole`: expression by expression, to the first that fails. -/
def evaluate (silent : Bool) : List (Expression α) → State α → State α
  | [], s => s
  | e :: es, s =>
    let s := e.drawings.foldl State.draw s
    match e.outcome with
    | .failed => s
    | .failedPrinting => checkGraphics silent e.look s
    | .evaluated => evaluate silent es (checkGraphics silent e.look s)

/-- From `.jv.repl.cell_start` to `.jv.repl.cell_done`. -/
def runCell (s : State α) (c : Cell α) : State α :=
  let s := evaluate c.silent c.expressions { s with cellPlot := none, sent := [] }
  if c.silent then s else cellDone c.look s

end Jovian.RGraphics
