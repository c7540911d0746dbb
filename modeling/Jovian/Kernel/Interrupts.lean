import Jovian.Lib.Transition

/-!
# Jovian — interrupts and the execution they are for

An `interrupt_request` that comes while a cell runs is handled on the control watcher's thread:
`interruptRequestImpl` looks whether `m_executing` is set, and then raises a break. What the main
thread does meanwhile differs from kernel to kernel, and neither waits for the other between the
two. `endExecution` does wait: the watcher holds `m_controlMutex` while it polls.

A kernel is given by what its main thread does for a cell, from `beginExecution` on, as a list of
operations, and by its handler. Code of a cell is only seen where it looks for a break: it takes
the one that is pending, and the rest of the code may then be left out.

Breaks and requests carry the number of the execution in which their interrupt was handled.
-/

namespace Jovian.Interrupts

/-! ## What the threads do -/

/-- What the main thread does for an execution. -/
inductive Op where
  /-- `m_watching = true` -/
  | beginExecution
  /-- `m_executing = value` -/
  | setExecuting (value : Bool)
  /-- `m_interruptRequested = false` -/
  | clearRequested
  /-- `m_interruptRequested.exchange(false)`: where it was set, the cell is interrupted. -/
  | takeRequested
  /-- The interpreter runs code up to where it looks for a break. -/
  | code
  /-- `clearRInterrupt` -/
  | clearBreak
  /-- `m_watching = false`, the first half of `endExecution`. -/
  | endExecution
  /-- The lock on `m_controlMutex`, its second half. -/
  | awaitWatcher
deriving DecidableEq, Repr

/-- What `interruptRequestImpl` does. -/
inductive HandlerOp where
  /-- `if (m_executing.load())` -/
  | check
  /-- `m_interruptRequested = true` -/
  | request
  /-- `requestRInterrupt`, `SIGINT`, `StataSO_SetBreak`. -/
  | raise
deriving DecidableEq, Repr

/-! ## What every kernel keeps to -/

/-- Where an execution is with the watcher. -/
inductive Phase where
  | unwatched | watched | ending
deriving DecidableEq, Repr

def Phase.next : Phase → Op → Option Phase
  | .unwatched, .beginExecution => some .watched
  | .watched, .endExecution => some .ending
  | .ending, .awaitWatcher => some .unwatched
  | _, .beginExecution => none
  | _, .endExecution => none
  | _, .awaitWatcher => none
  | phase, _ => some phase

/-- The watcher is let go, and waited for, at the end of what is started with it. -/
def guards : Phase → List Op → Bool
  | phase, [] => phase = .unwatched
  | phase, op :: ops =>
    match phase.next op with
    | some next => guards next ops
    | none => false

theorem unwatched_of_begin {phase : Phase} {ops : List Op}
    (h : guards phase (.beginExecution :: ops) = true) : phase = .unwatched := by
  cases phase with
  | unwatched => rfl
  | watched => cases h
  | ending => cases h

theorem watched_of_end {phase : Phase} {ops : List Op}
    (h : guards phase (.endExecution :: ops) = true) : phase = .watched := by
  cases phase with
  | unwatched => cases h
  | watched => rfl
  | ending => cases h

theorem ending_of_await {phase : Phase} {ops : List Op}
    (h : guards phase (.awaitWatcher :: ops) = true) : phase = .ending := by
  cases phase with
  | unwatched => cases h
  | watched => cases h
  | ending => rfl

/-- `m_interruptRequested` is not looked at before it is cleared. -/
def clearsFirst : List Op → Bool
  | .clearRequested :: _ => true
  | .takeRequested :: _ => false
  | _ :: ops => clearsFirst ops
  | [] => true

structure Kernel where
  Cell : Type
  ops : Cell → List Op
  interruptRequestImpl : List HandlerOp
  guarded : ∀ cell, guards .unwatched (ops cell) = true
  cleared : ∀ cell, clearsFirst (ops cell) = true

/-- Code that looks for a break `n` times, and what comes behind it. -/
def runs (n : Nat) (ops : List Op) : List Op := List.replicate n .code ++ ops

theorem guards_code (phase : Phase) (ops : List Op) :
    guards phase (.code :: ops) = guards phase ops := by
  cases phase <;> rfl

theorem guards_runs (phase : Phase) (n : Nat) (ops : List Op) :
    guards phase (runs n ops) = guards phase ops := by
  induction n with
  | zero => rfl
  | succ n ih => exact (guards_code phase (runs n ops)).trans ih

theorem clearsFirst_runs (n : Nat) (ops : List Op) :
    clearsFirst (runs n ops) = clearsFirst ops := by
  induction n with
  | zero => rfl
  | succ n ih => exact ih

/-! ## The three kernels -/

namespace Elara

/-- A cell: whether it is parsed, and the code run before its expressions (the parser, hera's
`cell_start`), for them, and behind them (hera's `cell_done`, the user expressions). -/
structure Cell where
  parsed : Bool
  before : Nat
  code : Nat
  after : Nat

/-- `executeRequestImpl`, R's console loop, and `finishCell`. -/
def executeRequest (cell : Cell) : List Op :=
  .beginExecution :: .clearRequested :: runs cell.before
    (if cell.parsed then
      .setExecuting true :: runs cell.code
        (.takeRequested :: .setExecuting false :: .clearBreak :: runs cell.after
          [.endExecution, .awaitWatcher])
    else [.endExecution, .awaitWatcher])

end Elara

namespace Carpo

/-- A cell, and whether running it returns. What is thrown resets `m_executing` on its way to the
reply that `KernelCore` sends; otherwise it is reset behind the reply. -/
structure Cell where
  returns : Bool
  code : Nat

def executeRequest (cell : Cell) : List Op :=
  .beginExecution :: .setExecuting true :: runs cell.code
    (if cell.returns then [.endExecution, .awaitWatcher, .setExecuting false]
    else [.setExecuting false, .endExecution, .awaitWatcher])

end Carpo

namespace Callisto

/-- A cell: whether it has code that reaches `StataSO_Execute`, and what Stata runs before it
(graph names), for it, and behind it (graphs, the data viewer, the user expressions). -/
structure Cell where
  executes : Bool
  before : Nat
  code : Nat
  after : Nat

def executeRequest (cell : Cell) : List Op :=
  .beginExecution :: runs cell.before
    (if cell.executes then
      .setExecuting true :: runs cell.code
        (.setExecuting false :: runs cell.after [.endExecution, .awaitWatcher])
    else runs cell.after [.endExecution, .awaitWatcher])

end Callisto

def elara : Kernel where
  Cell := Elara.Cell
  ops := Elara.executeRequest
  interruptRequestImpl := [.check, .request, .raise]
  guarded cell := by
    cases hparsed : cell.parsed <;>
      simp [Elara.executeRequest, hparsed, guards, Phase.next, guards_runs]
  cleared cell := rfl

def carpo : Kernel where
  Cell := Carpo.Cell
  ops := Carpo.executeRequest
  interruptRequestImpl := [.check, .raise]
  guarded cell := by
    cases hreturns : cell.returns <;>
      simp [Carpo.executeRequest, hreturns, guards, Phase.next, guards_runs]
  cleared cell := by
    cases hreturns : cell.returns <;>
      simp [Carpo.executeRequest, hreturns, clearsFirst, clearsFirst_runs]

def callisto : Kernel where
  Cell := Callisto.Cell
  ops := Callisto.executeRequest
  interruptRequestImpl := [.check, .raise]
  guarded cell := by
    cases hexecutes : cell.executes <;>
      simp [Callisto.executeRequest, hexecutes, guards, Phase.next, guards_runs]
  cleared cell := by
    cases hexecutes : cell.executes <;>
      simp [Callisto.executeRequest, hexecutes, clearsFirst, clearsFirst_runs]

/-! ## Both threads -/

/-- Where the watcher is in its turn. It holds `m_controlMutex` but for `out`. -/
inductive Watcher where
  | out | polling
  /-- In `interruptRequestImpl`, with what is left of it. -/
  | handling (execution : Nat) (rest : List HandlerOp)
  | polled
deriving DecidableEq, Repr

structure State where
  /-- What the main thread has left to do for the execution. -/
  ops : List Op := []
  execution : Nat := 0
  executing : Bool := false
  watching : Bool := false
  watcher : Watcher := .out
  /-- `m_interruptRequested` -/
  requested : Option Nat := none
  /-- The break that is pending. -/
  raised : Option Nat := none
  /-- What each execution found pending when it began. -/
  found : List (Option Nat) := []
  /-- What interrupted what: the execution of the interrupt, and the one that was hit. -/
  hits : List (Nat × Nat) := []
deriving DecidableEq, Repr

variable (k : Kernel)

inductive Event where
  | executeRequest (cell : k.Cell)
  /-- The main thread's next operation; code that ends early leaves out up to `skipped` more. -/
  | main (skipped : Nat)
  /-- The interpreter's own loop, between executions. -/
  | idle
  /-- The watcher takes `m_controlMutex` and finds `m_watching` set. -/
  | enter
  /-- It reads an `interrupt_request`, or nothing. -/
  | read (interrupt : Bool)
  | handle
  | leave

variable {k}

def skipCode : Nat → List Op → List Op
  | n + 1, .code :: ops => skipCode n ops
  | _, ops => ops

def State.hit (interrupt : Option Nat) (s : State) : State :=
  { s with hits := s.hits ++ interrupt.toList.map fun n => (n, s.execution) }

def main (skipped : Nat) (s : State) : State :=
  match s.ops with
  | [] => s
  | .beginExecution :: ops => { s with ops := ops, watching := true }
  | .setExecuting value :: ops => { s with ops := ops, executing := value }
  | .clearRequested :: ops => { s with ops := ops, requested := none }
  | .takeRequested :: ops => { s.hit s.requested with ops := ops, requested := none }
  | .code :: ops => { s.hit s.raised with ops := skipCode skipped ops, raised := none }
  | .clearBreak :: ops => { s with ops := ops, raised := none }
  | .endExecution :: ops => { s with ops := ops, watching := false }
  | .awaitWatcher :: ops => if s.watcher = .out then { s with ops := ops } else s

def handle (s : State) : State :=
  match s.watcher with
  | .handling n (.check :: rest) =>
    { s with watcher := if s.executing then .handling n rest else .polled }
  | .handling n (.request :: rest) =>
    { s with watcher := .handling n rest, requested := some n }
  | .handling n (.raise :: rest) => { s with watcher := .handling n rest, raised := some n }
  | .handling _ [] => { s with watcher := .polled }
  | _ => s

def step (s : State) : Event k → State
  | .executeRequest cell =>
    if s.ops = [] then
      { s with ops := k.ops cell, execution := s.execution + 1, found := s.found ++ [s.raised] }
    else s
  | .main skipped => main skipped s
  | .idle => if s.ops = [] then { s with raised := none } else s
  | .enter => if s.watcher = .out ∧ s.watching then { s with watcher := .polling } else s
  | .read interrupt =>
    if s.watcher = .polling then
      { s with
        watcher := if interrupt then .handling s.execution k.interruptRequestImpl else .polled }
    else s
  | .handle => handle s
  | .leave => if s.watcher = .polled then { s with watcher := .out } else s

variable (k) in
def system : Transition.System State (Event k) :=
  .ofFn {} step

/-! ## A break for a later cell -/

/-- **An interrupt never hits a later cell.** No execution begins with a break pending, and what is
interrupted is the execution in which the interrupt was handled. -/
structure NeverLater (s : State) : Prop where
  found : ∀ raised ∈ s.found, raised = none
  hits : ∀ hit ∈ s.hits, hit.1 = hit.2

/-- Whether a break that is pending is still taken or cleared in this execution. -/
def mends (ops : List Op) : Bool :=
  ops.any fun op => op = .code || op = .clearBreak

/-- A break raised when the execution has no code left to take it, nor its clearing. -/
def late (s : State) : Event k → Bool
  | .handle =>
    match s.watcher with
    | .handling _ (.raise :: _) => !mends s.ops
    | _ => false
  | _ => false

/-! ## Code that ends early -/

theorem guards_skipCode (phase : Phase) (n : Nat) (ops : List Op) :
    guards phase (skipCode n ops) = guards phase ops := by
  induction n generalizing ops with
  | zero => rw [skipCode]; simp
  | succ n ih =>
    rw [skipCode.eq_def]
    split
    · next ops hn =>
      obtain rfl : n = _ := Nat.succ.inj hn
      rw [ih, guards_code]
    · rfl

theorem clearsFirst_skipCode (n : Nat) (ops : List Op) :
    clearsFirst (skipCode n ops) = clearsFirst ops := by
  induction n generalizing ops with
  | zero => rw [skipCode]; simp
  | succ n ih =>
    rw [skipCode.eq_def]
    split
    · next ops hn =>
      obtain rfl : n = _ := Nat.succ.inj hn
      exact ih ops
    · rfl

/-! ## The invariant -/

structure Guarded (s : State) : Prop where
  found : ∀ raised ∈ s.found, raised = none
  hits : ∀ hit ∈ s.hits, hit.1 = hit.2
  mended : s.raised ≠ none → mends s.ops = true
  raised : ∀ n, s.raised = some n → n = s.execution
  requested : ∀ n, s.requested = some n → n = s.execution ∨ clearsFirst s.ops = true
  handling : ∀ n rest, s.watcher = .handling n rest → n = s.execution
  phase : ∃ phase, guards phase s.ops = true ∧ (s.watching = true → phase = .watched) ∧
    (s.watcher ≠ .out → phase ≠ .unwatched)

/-- An interrupt of the current execution hits it. -/
theorem hits_hit {s : State} {interrupt : Option Nat} (hhits : ∀ hit ∈ s.hits, hit.1 = hit.2)
    (hcurrent : ∀ n, interrupt = some n → n = s.execution) :
    ∀ hit ∈ (s.hit interrupt).hits, hit.1 = hit.2 := by
  intro hit hmem
  rcases List.mem_append.mp hmem with hmem | hmem
  · exact hhits hit hmem
  · obtain ⟨n, hn, rfl⟩ := List.mem_map.mp hmem
    exact hcurrent n (Option.mem_toList.mp hn)

theorem guarded_init : Guarded {} where
  found raised h := by cases h
  hits hit h := by cases h
  mended h := absurd rfl h
  raised n h := by cases h
  requested n h := by cases h
  handling n rest h := by cases h
  phase := ⟨.unwatched, rfl, by simp, by simp⟩

theorem Guarded.executeRequest {s : State} (cell : k.Cell) (h : Guarded s) (hops : s.ops = []) :
    Guarded { s with
      ops := k.ops cell, execution := s.execution + 1, found := s.found ++ [s.raised] } := by
  -- nothing is left of the execution before: the watcher is out, and no break is pending
  have hraised : s.raised = none := by
    by_contra hsome
    have hmends := h.mended hsome
    rw [hops] at hmends
    cases hmends
  obtain ⟨phase, hguards, hwatched, hout⟩ := h.phase
  obtain rfl : phase = .unwatched := by simpa [hops, guards] using hguards
  have hwatcher : s.watcher = .out := by
    by_contra hin
    exact hout hin rfl
  refine ⟨?_, h.hits, fun hsome => absurd hraised hsome, fun n hn => ?_,
    fun n _ => .inr (k.cleared cell), fun n rest hn => ?_,
    ⟨.unwatched, k.guarded cell, hwatched, hout⟩⟩
  · intro raised hmem
    rcases List.mem_append.mp hmem with hmem | hmem
    · exact h.found raised hmem
    · rw [List.mem_singleton.mp hmem, hraised]
  · rw [hraised] at hn
    cases hn
  · rw [hwatcher] at hn
    cases hn

/-- One operation of the main thread. -/
theorem Guarded.main {s : State} (skipped : Nat) (h : Guarded s) : Guarded (main skipped s) := by
  -- one case for each operation; the phase changes only where the watcher is let in or out
  obtain ⟨found, hits, mended, raised, requested, handling, phase, hguards, hwatched, hout⟩ := h
  cases hops : s.ops with
  | nil =>
    simp only [Interrupts.main, hops]
    exact ⟨found, hits, mended, raised, requested, handling, phase, hguards, hwatched, hout⟩
  | cons op ops =>
    rw [hops] at mended requested hguards
    cases op with
    | beginExecution =>
      -- the watcher may come in
      obtain rfl := unwatched_of_begin hguards
      simp only [Interrupts.main, hops]
      exact ⟨found, hits, mended, raised, requested, handling, .watched, hguards, fun _ => rfl,
        fun _ => by decide⟩
    | setExecuting value =>
      simp only [Interrupts.main, hops]
      refine ⟨found, hits, mended, raised, requested, handling, phase, ?_, hwatched, hout⟩
      cases phase <;> exact hguards
    | clearRequested =>
      simp only [Interrupts.main, hops]
      refine ⟨found, hits, mended, raised, ?_, handling, phase, ?_, hwatched, hout⟩
      · intro n hn
        cases hn
      · cases phase <;> exact hguards
    | takeRequested =>
      -- it is taken without having been cleared, so it is of this execution
      have hcurrent : ∀ n, s.requested = some n → n = s.execution := fun n hn =>
        (requested n hn).resolve_right (by simp [clearsFirst])
      simp only [Interrupts.main, hops]
      refine ⟨found, hits_hit hits hcurrent, mended, raised, ?_, handling, phase, ?_, hwatched, hout⟩
      · intro n hn
        cases hn
      · cases phase <;> exact hguards
    | code =>
      simp only [Interrupts.main, hops]
      refine ⟨found, hits_hit hits raised, fun hsome => absurd rfl hsome, ?_, ?_, handling, phase, ?_,
        hwatched, hout⟩
      · intro n hn
        cases hn
      · intro n hn
        rw [clearsFirst_skipCode]
        exact requested n hn
      · rw [guards_skipCode]
        cases phase <;> exact hguards
    | clearBreak =>
      simp only [Interrupts.main, hops]
      refine ⟨found, hits, fun hsome => absurd rfl hsome, ?_, requested, handling, phase, ?_,
        hwatched, hout⟩
      · intro n hn
        cases hn
      · cases phase <;> exact hguards
    | endExecution =>
      -- it may not come in any more
      obtain rfl := watched_of_end hguards
      simp only [Interrupts.main, hops]
      exact ⟨found, hits, mended, raised, requested, handling, .ending, hguards, by simp, by simp⟩
    | awaitWatcher =>
      -- nor is it in, once it has been awaited
      obtain rfl := ending_of_await hguards
      simp only [Interrupts.main, hops]
      split
      · next hwatcher =>
        exact ⟨found, hits, mended, raised, requested, handling, .unwatched, hguards,
          fun hwatching => (by cases hwatched hwatching), fun hin => absurd hwatcher hin⟩
      · rw [← hops] at mended requested hguards
        exact ⟨found, hits, mended, raised, requested, handling, .ending, hguards, hwatched, hout⟩

/-- One step of the handler, where it does not raise its break too late. -/
theorem Guarded.handle {s : State} (h : Guarded s)
    (hlate : late (k := k) s .handle = false) : Guarded (handle s) := by
  obtain ⟨found, hits, mended, raised, requested, handling, phase, hguards, hwatched, hout⟩ := h
  rw [Interrupts.handle]
  split
  · next n rest hwatcher =>
    have hin : s.watcher ≠ .out := by simp [hwatcher]
    refine ⟨found, hits, mended, raised, requested, ?_, phase, hguards, hwatched, fun _ => hout hin⟩
    intro m todo hm
    dsimp only at hm
    split at hm
    · cases hm
      exact handling n _ hwatcher
    · cases hm
  · next n rest hwatcher =>
    have hin : s.watcher ≠ .out := by simp [hwatcher]
    have hn := handling n _ hwatcher
    refine ⟨found, hits, mended, raised, ?_, ?_, phase, hguards, hwatched, fun _ => hout hin⟩
    · intro m hm
      cases hm
      exact .inl hn
    · intro m todo hm
      cases hm
      exact hn
  · next n rest hwatcher =>
    have hin : s.watcher ≠ .out := by simp [hwatcher]
    have hn := handling n _ hwatcher
    refine ⟨found, hits, fun _ => ?_, ?_, requested, ?_, phase, hguards, hwatched, fun _ => hout hin⟩
    · -- the break is still taken or cleared
      simpa [late, hwatcher] using hlate
    · intro m hm
      cases hm
      exact hn
    · intro m todo hm
      cases hm
      exact hn
  · next n hwatcher =>
    have hin : s.watcher ≠ .out := by simp [hwatcher]
    refine ⟨found, hits, mended, raised, requested, ?_, phase, hguards, hwatched, fun _ => hout hin⟩
    intro m todo hm
    cases hm
  · exact ⟨found, hits, mended, raised, requested, handling, phase, hguards, hwatched, hout⟩

theorem Guarded.step {s : State} {e : Event k} (h : Guarded s) (hlate : late s e = false) :
    Guarded (step s e) := by
  cases e with
  | executeRequest cell =>
    rw [Interrupts.step]
    split
    · next hops => exact h.executeRequest cell hops
    · exact h
  | main skipped => exact h.main skipped
  | idle =>
    rw [Interrupts.step]
    split
    · exact ⟨h.found, h.hits, fun hsome => absurd rfl hsome, fun n hn => (by cases hn), h.requested,
        h.handling, h.phase⟩
    · exact h
  | enter =>
    obtain ⟨phase, hguards, hwatched, hout⟩ := h.phase
    rw [Interrupts.step]
    split
    · next henter =>
      refine ⟨h.found, h.hits, h.mended, h.raised, h.requested, fun n rest hn => (by cases hn),
        phase, hguards, hwatched, fun _ => ?_⟩
      rw [hwatched henter.2]
      decide
    · exact h
  | read interrupt =>
    obtain ⟨phase, hguards, hwatched, hout⟩ := h.phase
    rw [Interrupts.step]
    split
    · next hwatcher =>
      have hin : s.watcher ≠ .out := by simp [hwatcher]
      refine ⟨h.found, h.hits, h.mended, h.raised, h.requested, fun n rest hn => ?_, phase, hguards,
        hwatched, fun _ => hout hin⟩
      cases interrupt <;> cases hn
      rfl
    · exact h
  | handle => exact h.handle hlate
  | leave =>
    obtain ⟨phase, hguards, hwatched, hout⟩ := h.phase
    rw [Interrupts.step]
    split
    · exact ⟨h.found, h.hits, h.mended, h.raised, h.requested, fun n rest hn => (by cases hn), phase,
        hguards, hwatched, fun hin => absurd rfl hin⟩
    · exact h

/-- **An interrupt never hits a later cell where its break is raised in time.** In every run of a
kernel in which a break is raised only while the execution still has code to run, or R's flag to
clear, no execution finds a break pending and every interrupt hits its own execution. -/
theorem interrupts_never_later {s : State}
    (h : ((system k).when fun s e => late s e = false).Reachable s) : NeverLater s := by
  have hguarded : Guarded s :=
    Transition.System.invariant_ofFn guarded_init (fun _ _ hs hlate => hs.step hlate) h
  exact ⟨hguarded.found, hguarded.hits⟩

/-- A break raised too late is not lost either: it stays while the execution ends. -/
theorem late_break_stays {s : State} (skipped : Nat) (h : mends s.ops = false) :
    mends (main skipped s).ops = false ∧ (main skipped s).raised = s.raised := by
  have hsame : mends s.ops = false ∧ s.raised = s.raised := ⟨h, rfl⟩
  rw [main]
  split
  · exact hsame
  · next hops => exact ⟨by rwa [hops] at h, rfl⟩
  · next hops => exact ⟨by rwa [hops] at h, rfl⟩
  · next hops => exact ⟨by rwa [hops] at h, rfl⟩
  · next hops => exact ⟨by rwa [hops] at h, rfl⟩
  · next hops =>
    -- code would take it
    rw [hops] at h
    cases h
  · next hops =>
    rw [hops] at h
    cases h
  · next hops => exact ⟨by rwa [hops] at h, rfl⟩
  · next hops =>
    split
    · exact ⟨by rwa [hops] at h, rfl⟩
    · exact hsame

/-! ## Runs -/

def mainSteps (n : Nat) : List (Event k) := List.replicate n (.main 0)

/-- The watcher's turn, up to its look at `m_executing`, and what is left of it. -/
def interrupted : List (Event k) := [.enter, .read true, .handle]

def broken : List (Event k) := [.handle, .handle, .handle, .leave]

def Carpo.cell (code : Nat) : Event carpo := .executeRequest (⟨true, code⟩ : Carpo.Cell)

def Callisto.cell : Event callisto := .executeRequest (⟨true, 0, 1, 0⟩ : Callisto.Cell)

def Elara.cell : Event elara := .executeRequest (⟨true, 1, 1, 1⟩ : Elara.Cell)

/-- A cell that is interrupted while its code runs, and another one. -/
def inTime : List (Event carpo) :=
  Carpo.cell 2 :: mainSteps 3 ++ interrupted ++ broken ++ mainSteps 4 ++ [Carpo.cell 1] ++
    mainSteps 3

theorem interrupts_never_later_inTime : NeverLater (inTime.foldl step {}) :=
  @interrupts_never_later carpo _ (Transition.System.reachable_when_foldl fun pre e h => by
    have hsteps : Transition.System.allSteps step (fun s e => !late s e) {} inTime = true := by
      decide +kernel
    simpa using Transition.System.forall_of_allSteps hsteps pre e h)

/-- Python has returned, and its reply is not out. -/
def returned : List (Event carpo) :=
  Carpo.cell 1 :: mainSteps 3 ++ interrupted ++ broken ++ mainSteps 3 ++ [Carpo.cell 1] ++
    mainSteps 3

/-- Stata returns between a handler's look at `m_executing` and its break. -/
def returning : List (Event callisto) :=
  Callisto.cell :: mainSteps 2 ++ interrupted ++ mainSteps 2 ++ broken ++ mainSteps 2 ++
    [Callisto.cell] ++ mainSteps 3

/-- R finishes its cell between the two. -/
def finishing : List (Event elara) :=
  Elara.cell :: mainSteps 4 ++ interrupted ++ mainSteps 5 ++ broken ++ mainSteps 2 ++
    [Elara.cell] ++ mainSteps 3

theorem not_neverLater {s : State} {n : Nat} (h : some n ∈ s.found) : ¬NeverLater s := by
  intro hnever
  cases hnever.found _ h

/-- In each kernel, an interrupt of the first execution hits the second. -/
theorem interrupt_hits_later_cell :
    (∃ s, (system carpo).Reachable s ∧ ¬NeverLater s ∧ s.hits = [(1, 2)]) ∧
    (∃ s, (system callisto).Reachable s ∧ ¬NeverLater s ∧ s.hits = [(1, 2)]) ∧
    ∃ s, (system elara).Reachable s ∧ ¬NeverLater s ∧ s.hits = [(1, 2)] := by
  refine ⟨⟨_, Transition.System.reachable_foldl _ _ returned, ?_, by decide +kernel⟩,
    ⟨_, Transition.System.reachable_foldl _ _ returning, ?_, by decide +kernel⟩,
    ⟨_, Transition.System.reachable_foldl _ _ finishing, ?_, by decide +kernel⟩⟩
  · exact not_neverLater (n := 1) (by decide +kernel)
  · exact not_neverLater (n := 1) (by decide +kernel)
  · exact not_neverLater (n := 1) (by decide +kernel)

end Jovian.Interrupts
