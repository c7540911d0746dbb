import Jovian.Lib.Transducer
import Jovian.Lib.Transition
import Mathlib.Data.List.Basic

/-!
# Jovian — the relay of a kernel's own output (`KernelProcess::startOutputPump`, POSIX)

A kernel writes to its stdout and stderr, one pipe; a thread of the supervisor reads it, up to
4096 bytes at a time, and writes each line to the supervisor's stderr under the kernel's label. The
pipe's other end is the kernel's and that of every process it starts, and stays open as long as one
of them does. `endOutputPump` waits a second for the end of file, then clears `m_running`.

* **`relays`** — at every moment the lines written are those of the bytes read, however they were
  read; at the end the unfinished one too. What is not relayed came after the pump last looked.
* **`leaves`** — once `m_running` is cleared the pump ends.
-/

namespace Jovian.OutputPump

abbrev Bytes := List UInt8

def newline : UInt8 := 10

/-- `"[" << label << "] " << line << std::endl` -/
def labelled (label line : Bytes) : Bytes :=
  "[".toUTF8.toList ++ label ++ "] ".toUTF8.toList ++ line ++ [newline]

/-- `relay`: what is written of the carry, and what is left of it. -/
def relay (label carry : Bytes) : Bytes × Bytes :=
  let pos := carry.idxOf newline
  if _ : pos < carry.length then
    let rest := relay label (carry.drop (pos + 1))
    (labelled label (carry.take pos) ++ rest.1, rest.2)
  else ([], carry)
termination_by carry.length
decreasing_by
  rw [List.length_drop]
  omega

/-- Why the pump's loop ended; `interrupted`: its last `poll` was, by a signal. -/
inductive End where
  | endOfFile
  | stopped (interrupted : Bool)
deriving DecidableEq, Repr

inductive Pc where
  | poll
  | read
  | checkRunning (interrupted : Bool)
  | left (why : End)
deriving DecidableEq, Repr

structure State where
  label : Bytes
  /-- The pipe, and how many processes have its other end open. -/
  pipe : Bytes := []
  writers : Nat := 1
  running : Bool := true
  carry : Bytes := []
  stderr : Bytes := []
  pc : Pc := .poll
  /-- All that was written to the pipe, all that was read, and what had been written when `poll` last
  answered. -/
  written : Bytes := []
  taken : Bytes := []
  seen : Bytes := []
deriving DecidableEq, Repr

/-- After the loop: the unfinished line. -/
def leave (s : State) (why : End) : State :=
  { s with
    stderr := s.stderr ++ if s.carry = [] then [] else labelled s.label s.carry
    pc := .left why }

/-- The pump's next step; a read takes some of what is there, `n` bytes where it may. -/
def pump (s : State) (n : Nat) : State :=
  match s.pc with
  | .poll =>
    if s.pipe ≠ [] ∨ s.writers = 0 then { s with pc := .read, seen := s.written }
    else { s with pc := .checkRunning false, seen := s.written }
  | .read =>
    if s.pipe = [] then
      -- end of file; with a writer left the read would wait for it
      if s.writers = 0 then leave s .endOfFile else s
    else
      let n := min (n + 1) 4096
      let out := relay s.label (s.carry ++ s.pipe.take n)
      { s with
        pipe := s.pipe.drop n
        taken := s.taken ++ s.pipe.take n
        stderr := s.stderr ++ out.1
        carry := out.2
        pc := .poll }
  | .checkRunning interrupted =>
    if s.running then { s with pc := .poll } else leave s (.stopped interrupted)
  | .left _ => s

inductive Event where
  /-- A process that has the pipe writes, starts another, or ends. -/
  | write (bytes : Bytes)
  | inherit
  | close
  /-- A signal interrupts `poll`. -/
  | interrupt
  /-- `endOutputPump`, its second over. -/
  | stop
  | pump (n : Nat)
deriving DecidableEq, Repr

def step (s : State) : Event → State
  | .write bytes =>
    match s.pc with
    | .left _ => s
    | _ => if s.writers = 0 then s else { s with pipe := s.pipe ++ bytes, written := s.written ++ bytes }
  | .inherit => if s.writers = 0 then s else { s with writers := s.writers + 1 }
  | .close => { s with writers := s.writers - 1 }
  | .interrupt => if s.pc = .poll then { s with pc := .checkRunning true } else s
  | .stop => { s with running := false }
  | .pump n => pump s n

def run (label : Bytes) (es : List Event) : State :=
  es.foldl step { label := label }

/-! ## The lines of a text -/

/-- One byte of a text, after an unfinished line. -/
def feed (label line : Bytes) (b : UInt8) : Bytes × Bytes :=
  if b = newline then ([], labelled label line) else (line ++ [b], [])

/-- The ended lines of a text, under the label, and the line it does not end. -/
def lines (label text : Bytes) : Bytes × Bytes :=
  let fed := Transducer.run (feed label) [] text
  (fed.2, fed.1)

/-- All of a text's lines under the label. -/
def allLines (label text : Bytes) : Bytes :=
  (lines label text).1 ++
    if (lines label text).2 = [] then [] else labelled label (lines label text).2

theorem run_unended {label line text : Bytes} (h : newline ∉ text) :
    Transducer.run (feed label) line text = (line ++ text, []) := by
  induction text generalizing line with
  | nil => rw [Transducer.run_nil, List.append_nil]
  | cons b text ih =>
    rw [List.mem_cons, not_or] at h
    rw [Transducer.run_cons, feed, if_neg (Ne.symm h.1), ih h.2, List.append_assoc]
    rfl

theorem lines_rest (label text : Bytes) : newline ∉ (lines label text).2 := by
  refine Transducer.run_keeps (P := fun line : Bytes => newline ∉ line) (fun line b hline => ?_)
    List.not_mem_nil text
  rw [feed]
  split
  · exact List.not_mem_nil
  · rename_i hb
    simp only [List.mem_append, List.mem_singleton, not_or]
    exact ⟨hline, Ne.symm hb⟩

theorem lines_line {label line text : Bytes} (h : newline ∉ line) :
    lines label (line ++ newline :: text) =
      (labelled label line ++ (lines label text).1, (lines label text).2) := by
  have hline : Transducer.run (feed label) [] line = (line, []) := run_unended h
  simp only [lines, Transducer.run_append, Transducer.run_cons, hline, feed, if_true, List.nil_append]

/-- A line that is kept until it is ended is the line of the whole text. -/
theorem lines_append (label a b : Bytes) :
    lines label (a ++ b) =
      ((lines label a).1 ++ (lines label ((lines label a).2 ++ b)).1,
        (lines label ((lines label a).2 ++ b)).2) := by
  have hrest : Transducer.run (feed label) [] (Transducer.run (feed label) [] a).1 =
      ((Transducer.run (feed label) [] a).1, []) := run_unended (lines_rest label a)
  simp only [lines, Transducer.run_append, hrest, List.nil_append]

/-- The loop over `carry.find` takes the carry's lines. -/
theorem relay_eq (label carry : Bytes) : relay label carry = lines label carry := by
  induction hn : carry.length using Nat.strongRecOn generalizing carry with
  | ind n ih =>
    rw [relay]
    by_cases h : carry.idxOf newline < carry.length
    · have hmem : newline ∈ carry := List.idxOf_lt_length_iff.mp h
      have hsplit : carry = carry.take (carry.idxOf newline) ++
          newline :: carry.drop (carry.idxOf newline + 1) := by
        conv_lhs => rw [← List.take_append_drop (carry.idxOf newline) carry]
        rw [List.drop_eq_getElem_cons h, List.getElem_idxOf h]
      have hbefore : newline ∉ carry.take (carry.idxOf newline) := by
        rw [List.mem_take_iff_idxOf_lt hmem]
        omega
      have hshorter : (carry.drop (carry.idxOf newline + 1)).length < n := by
        rw [List.length_drop]
        omega
      have hrest := ih _ hshorter (carry.drop (carry.idxOf newline + 1)) rfl
      rw [dif_pos h, hrest]
      conv_rhs => rw [hsplit, lines_line hbefore]
    · have hnone : newline ∉ carry := fun hmem => h (List.idxOf_lt_length_iff.mpr hmem)
      have hunended : Transducer.run (feed label) [] carry = (carry, []) := run_unended hnone
      rw [dif_neg h, lines, hunended]

/-! ## What one step keeps -/

/-- What holds between the pump, its pipe and what it has written. -/
structure Pumping (label : Bytes) (s : State) : Prop where
  named : s.label = label
  written : s.written = s.taken ++ s.pipe
  /-- Until it leaves, the ended lines are out and the carry is the other. -/
  lines : (∀ why, s.pc ≠ .left why) → (s.stderr, s.carry) = OutputPump.lines label s.taken
  allLines : (∃ why, s.pc = .left why) → s.stderr = OutputPump.allLines label s.taken
  ready : s.pc = .read → s.pipe ≠ [] ∨ s.writers = 0
  quiet : s.pc = .checkRunning false → s.taken = s.seen
  stopped : ∀ interrupted, s.pc = .left (.stopped interrupted) →
    s.running = false ∧ (interrupted = false → s.taken = s.seen)
  ended : s.pc = .left .endOfFile → s.writers = 0 ∧ s.pipe = []

section

variable {label : Bytes} {s : State}

theorem Pumping.leave (h : Pumping label s) {why : End} (hpc : ∀ why, s.pc ≠ .left why)
    (hstopped : ∀ interrupted, why = .stopped interrupted →
      s.running = false ∧ (interrupted = false → s.taken = s.seen))
    (hended : why = .endOfFile → s.writers = 0 ∧ s.pipe = []) : Pumping label (leave s why) where
  named := h.named
  written := h.written
  lines hleft := absurd rfl (hleft why)
  allLines _ := by
    have hlines := h.lines hpc
    have hcarry : s.carry = (OutputPump.lines label s.taken).2 := congrArg Prod.snd hlines
    have hstderr : s.stderr = (OutputPump.lines label s.taken).1 := congrArg Prod.fst hlines
    show s.stderr ++ (if s.carry = [] then [] else labelled s.label s.carry) = _
    rw [h.named, hstderr, hcarry]
    rfl
  ready := nofun
  quiet := nofun
  stopped interrupted hwhy := hstopped interrupted (by simpa [OutputPump.leave] using hwhy)
  ended hwhy := hended (by simpa [OutputPump.leave] using hwhy)

/-- A read: the carry and what is read are the lines of all that has been read. -/
theorem Pumping.read (h : Pumping label s) (hpc : s.pc = .read) (n : Nat) :
    (s.stderr ++ (relay s.label (s.carry ++ s.pipe.take n)).1,
        (relay s.label (s.carry ++ s.pipe.take n)).2) =
      OutputPump.lines label (s.taken ++ s.pipe.take n) := by
  have hlines := h.lines (fun why hwhy => absurd (hpc.symm.trans hwhy) nofun)
  have hcarry : s.carry = (OutputPump.lines label s.taken).2 := congrArg Prod.snd hlines
  have hstderr : s.stderr = (OutputPump.lines label s.taken).1 := congrArg Prod.fst hlines
  rw [h.named, relay_eq, lines_append label s.taken, hcarry, hstderr]

theorem Pumping.pump (h : Pumping label s) (n : Nat) : Pumping label (pump s n) := by
  cases hpc : s.pc with
  | poll =>
    have hstill : ∀ why, s.pc ≠ .left why := fun why hwhy => absurd (hpc.symm.trans hwhy) nofun
    by_cases hready : s.pipe ≠ [] ∨ s.writers = 0
    · simp only [OutputPump.pump, hpc, if_pos hready]
      exact ⟨h.named, h.written, fun _ => h.lines hstill, fun ⟨_, hwhy⟩ => absurd hwhy nofun, fun _ => hready,
        nofun, fun _ => nofun, nofun⟩
    · simp only [OutputPump.pump, hpc, if_neg hready]
      -- nothing in the pipe: what has been read is all that has been written
      have hempty : s.pipe = [] := by
        by_contra hne
        exact hready (.inl hne)
      have hall : s.taken = s.written := by rw [h.written, hempty, List.append_nil]
      exact ⟨h.named, h.written, fun _ => h.lines hstill, fun ⟨_, hwhy⟩ => absurd hwhy nofun, nofun, fun _ => hall,
        fun _ => nofun, nofun⟩
  | read =>
    have hstill : ∀ why, s.pc ≠ .left why := fun why hwhy => absurd (hpc.symm.trans hwhy) nofun
    by_cases hempty : s.pipe = []
    · have hwriters : s.writers = 0 := (h.ready hpc).resolve_left (not_not_intro hempty)
      simp only [OutputPump.pump, hpc, if_pos hempty, if_pos hwriters]
      exact h.leave hstill (fun _ => nofun) fun _ => ⟨hwriters, hempty⟩
    · simp only [OutputPump.pump, hpc, if_neg hempty]
      refine ⟨h.named, ?_, fun _ => h.read hpc _, fun ⟨_, hwhy⟩ => absurd hwhy nofun, nofun, nofun,
        fun _ => nofun, nofun⟩
      show s.written = s.taken ++ s.pipe.take _ ++ s.pipe.drop _
      rw [List.append_assoc, List.take_append_drop]
      exact h.written
  | checkRunning interrupted =>
    have hstill : ∀ why, s.pc ≠ .left why := fun why hwhy => absurd (hpc.symm.trans hwhy) nofun
    cases hrunning : s.running with
    | true =>
      simp only [OutputPump.pump, hpc, hrunning, if_true]
      exact ⟨h.named, h.written, fun _ => h.lines hstill, fun ⟨_, hwhy⟩ => absurd hwhy nofun, nofun, nofun,
        fun _ => nofun, nofun⟩
    | false =>
      simp only [OutputPump.pump, hpc, hrunning, Bool.false_eq_true, if_false]
      refine h.leave hstill (fun interrupted' hwhy => ⟨hrunning, fun hfalse => ?_⟩) nofun
      injection hwhy with hwhy
      exact h.quiet (by rw [hpc, hwhy, hfalse])
  | left why => simpa only [OutputPump.pump, hpc] using h

theorem Pumping.step (h : Pumping label s) (e : Event) : Pumping label (step s e) := by
  cases e with
  | pump n => exact h.pump n
  | stop =>
    exact ⟨h.named, h.written, h.lines, h.allLines, h.ready, h.quiet,
      fun interrupted hpc => ⟨rfl, (h.stopped interrupted hpc).2⟩, h.ended⟩
  | interrupt =>
    by_cases hpc : s.pc = .poll
    · have hstill : ∀ why, s.pc ≠ .left why := fun why hwhy => absurd (hpc.symm.trans hwhy) nofun
      simp only [OutputPump.step, if_pos hpc]
      exact ⟨h.named, h.written, fun _ => h.lines hstill, fun ⟨_, hwhy⟩ => absurd hwhy nofun, nofun, nofun,
        fun _ => nofun, nofun⟩
    · simpa only [OutputPump.step, if_neg hpc] using h
  | close =>
    have hzero : s.writers = 0 → s.writers - 1 = 0 := by omega
    exact ⟨h.named, h.written, h.lines, h.allLines, fun hpc => (h.ready hpc).imp_right hzero, h.quiet, h.stopped,
      fun hpc => ⟨hzero (h.ended hpc).1, (h.ended hpc).2⟩⟩
  | inherit =>
    by_cases hwriters : s.writers = 0
    · simpa only [OutputPump.step, if_pos hwriters] using h
    · simp only [OutputPump.step, if_neg hwriters]
      exact ⟨h.named, h.written, h.lines, h.allLines, fun hpc => .inl ((h.ready hpc).resolve_right hwriters),
        h.quiet, h.stopped, fun hpc => absurd (h.ended hpc).1 hwriters⟩
  | write bytes =>
    by_cases hleft : ∃ why, s.pc = .left why
    · obtain ⟨why, hpc⟩ := hleft
      simpa only [OutputPump.step, hpc] using h
    · have hstep : OutputPump.step s (.write bytes) =
          if s.writers = 0 then s
          else { s with pipe := s.pipe ++ bytes, written := s.written ++ bytes } := by
        cases hpc : s.pc with
        | left why => exact absurd ⟨why, hpc⟩ hleft
        | poll => simp only [OutputPump.step, hpc]
        | read => simp only [OutputPump.step, hpc]
        | checkRunning interrupted => simp only [OutputPump.step, hpc]
      rw [hstep]
      by_cases hwriters : s.writers = 0
      · simpa only [if_pos hwriters] using h
      · simp only [if_neg hwriters]
        refine ⟨h.named, ?_, h.lines, h.allLines, fun hpc => ?_, h.quiet, h.stopped, fun hpc => ?_⟩
        · show s.written ++ bytes = s.taken ++ (s.pipe ++ bytes)
          rw [h.written, List.append_assoc]
        · refine .inl fun hnil => ?_
          exact (h.ready hpc).resolve_right hwriters (List.append_eq_nil_iff.mp hnil).1
        · exact absurd (h.ended hpc).1 hwriters

end

theorem pumping_run (label : Bytes) (es : List Event) : Pumping label (run label es) := by
  have hreach := Transition.System.reachable_foldl ({ label := label } : State) step es
  refine Transition.System.invariant ?_ ?_ _ hreach
  · rintro _ rfl
    exact ⟨rfl, rfl, fun _ => rfl, fun ⟨_, h⟩ => absurd h nofun, nofun, nofun, fun _ => nofun, nofun⟩
  · rintro s e _ - hs rfl
    exact hs.step e

/-! ## What is relayed -/

/-- What the supervisor's stderr has of the kernel's output: the ended lines of what has been read; once
the pump has left, all lines — of everything, at the end of file, or of what had been written when the pump
last looked, if it was told to stop and no signal kept it from looking. -/
def State.Relayed (s : State) : Prop :=
  match s.pc with
  | .left .endOfFile => s.stderr = allLines s.label s.written ∧ s.writers = 0
  | .left (.stopped interrupted) =>
    s.stderr = allLines s.label s.taken ∧ s.running = false ∧ (interrupted = false → s.taken = s.seen)
  | _ => s.stderr = (lines s.label s.taken).1

/-- **However the output comes and is read**, it is relayed line by line, and all of it. -/
theorem relays (label : Bytes) (es : List Event) :
    (run label es).taken <+: (run label es).written ∧ (run label es).Relayed := by
  have h := pumping_run label es
  refine ⟨h.written ▸ List.prefix_append _ _, ?_⟩
  have hended : (∀ why, (run label es).pc ≠ .left why) →
      (run label es).stderr = (lines (run label es).label (run label es).taken).1 := by
    intro hstill
    rw [h.named]
    exact congrArg Prod.fst (h.lines hstill)
  cases hpc : (run label es).pc with
  | poll =>
    simp only [State.Relayed, hpc]
    exact hended fun why hwhy => absurd (hpc.symm.trans hwhy) nofun
  | read =>
    simp only [State.Relayed, hpc]
    exact hended fun why hwhy => absurd (hpc.symm.trans hwhy) nofun
  | checkRunning interrupted =>
    simp only [State.Relayed, hpc]
    exact hended fun why hwhy => absurd (hpc.symm.trans hwhy) nofun
  | left why =>
    have hlines := h.allLines ⟨why, hpc⟩
    cases why with
    | endOfFile =>
      obtain ⟨hwriters, hempty⟩ := h.ended hpc
      have hall : (run label es).written = (run label es).taken := by
        rw [h.written, hempty, List.append_nil]
      simp only [State.Relayed, hpc, h.named, hall]
      exact ⟨hlines, hwriters⟩
    | stopped interrupted =>
      simp only [State.Relayed, hpc, h.named]
      exact ⟨hlines, h.stopped interrupted hpc⟩

/-! ## The pump ends -/

/-- How many steps the pump has left at most, with nothing more written. -/
def State.remaining (s : State) : Nat :=
  match s.pc with
  | .poll => 2 * s.pipe.length + 2
  | .read => 2 * s.pipe.length + 1
  | .checkRunning _ => 1
  | .left _ => 0

theorem pump_running (s : State) (n : Nat) : (pump s n).running = s.running := by
  unfold pump leave
  repeat' split
  all_goals rfl

theorem Pumping.remaining_lt {label : Bytes} {s : State} (h : Pumping label s) (hrunning : s.running = false)
    (n : Nat) : (OutputPump.pump s n).remaining ≤ s.remaining - 1 := by
  cases hpc : s.pc with
  | poll =>
    by_cases hready : s.pipe ≠ [] ∨ s.writers = 0
    · simp only [OutputPump.pump, hpc, if_pos hready, State.remaining]
      omega
    · simp only [OutputPump.pump, hpc, if_neg hready, State.remaining]
      omega
  | read =>
    by_cases hempty : s.pipe = []
    · have hwriters : s.writers = 0 := (h.ready hpc).resolve_left (not_not_intro hempty)
      simp only [OutputPump.pump, hpc, if_pos hempty, if_pos hwriters, OutputPump.leave, State.remaining]
      omega
    · have hpos : 0 < s.pipe.length := List.length_pos_iff.mpr hempty
      have hread : (s.pipe.drop (min (n + 1) 4096)).length < s.pipe.length := by
        rw [List.length_drop]
        omega
      simp only [OutputPump.pump, hpc, if_neg hempty, State.remaining]
      omega
  | checkRunning interrupted =>
    simp only [OutputPump.pump, hpc, hrunning, Bool.false_eq_true, if_false, OutputPump.leave, State.remaining]
    omega
  | left why =>
    simp only [OutputPump.pump, hpc, State.remaining]
    omega

/-- The pump's steps alone, as many as it has left. -/
theorem Pumping.turns_over {label : Bytes} {s : State} (h : Pumping label s) (hrunning : s.running = false)
    {ns : List Nat} (hns : s.remaining ≤ ns.length) :
    ∃ why, ((ns.map Event.pump).foldl OutputPump.step s).pc = .left why := by
  induction ns generalizing s with
  | nil =>
    have hzero : s.remaining = 0 := Nat.le_zero.mp hns
    cases hpc : s.pc with
    | left why => exact ⟨why, hpc⟩
    | poll =>
      simp only [State.remaining, hpc] at hzero
      omega
    | read =>
      simp only [State.remaining, hpc] at hzero
      omega
    | checkRunning interrupted =>
      simp only [State.remaining, hpc] at hzero
      omega
  | cons n ns ih =>
    rw [List.map_cons, List.foldl_cons]
    refine ih (h.pump n) ((pump_running s n).trans hrunning) ?_
    have hlt := h.remaining_lt hrunning n
    rw [List.length_cons] at hns
    show (OutputPump.pump s n).remaining ≤ ns.length
    omega

theorem step_running {s : State} (h : s.running = false) (e : Event) : (step s e).running = false := by
  cases e with
  | pump n => exact (pump_running s n).trans h
  | write bytes =>
    simp only [step]
    split
    · exact h
    · split <;> exact h
  | inherit =>
    simp only [step]
    split <;> exact h
  | interrupt =>
    simp only [step]
    split <;> exact h
  | close => exact h
  | stop => rfl

theorem running_of_stop {es : List Event} (label : Bytes) (h : Event.stop ∈ es) :
    (run label es).running = false := by
  induction es using List.reverseRecOn with
  | nil => exact absurd h List.not_mem_nil
  | append_singleton es e ih =>
    rw [run, List.foldl_append]
    rcases List.mem_append.mp h with hes | he
    · exact step_running (ih hes) e
    · obtain rfl := List.mem_singleton.mp he
      rfl

/-- **Told to stop, the pump ends**, whoever keeps the pipe open: after two steps for each byte still in
it, and two more. So `endOutputPump`, which waits for it, returns. -/
theorem leaves (label : Bytes) (es : List Event) (ns : List Nat) (hstop : Event.stop ∈ es)
    (hns : 2 * (run label es).pipe.length + 2 ≤ ns.length) :
    ∃ why, (run label (es ++ ns.map Event.pump)).pc = .left why := by
  have hrunning := running_of_stop label hstop
  have hremaining : (run label es).remaining ≤ ns.length := by
    unfold State.remaining
    split <;> omega
  rw [run, List.foldl_append]
  exact (pumping_run label es).turns_over hrunning hremaining

/-- A child of the kernel's keeps the pipe open. -/
theorem leaves_open_pipe :
    ∃ why, (run [] ([.inherit, .write [104, 105], .close, .stop] ++
      (List.replicate 6 0).map Event.pump)).pc = .left why :=
  leaves [] [.inherit, .write [104, 105], .close, .stop] (List.replicate 6 0) (by decide) (by decide)

end Jovian.OutputPump
