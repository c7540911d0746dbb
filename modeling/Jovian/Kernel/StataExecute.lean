import Jovian.Kernel.ErrorMessage
import Jovian.Kernel.Utf8Decoder

/-!
# StataExecute — what a cell of the Stata kernel publishes (`StataInterpreter::executeRequestImpl`)

The output is polled while the command runs: it is decoded, its echo is filtered out, and its last
lines are held. A cell that fails publishes the message read back from the output as its error, and
the hold leaves the same text out of the output.

* `stdout_eq` — what is published is what the hold lets out of the calls made to it.
* **`error_shown_once_iff`** — the output is published up to the error, where the error is printed as
  the hold looks for it: `Recognised`.
-/

namespace Jovian.StataInterpreter

open EchoFilter (Text isSpace trim)
open StataText (errorMessage marker Block)
open TailHold (Call LineStart kLines)
open Utf8 (Bytes)

/-! ## The cell -/

def kErrorTailBytes : Nat := 16 * 1024

/-- What is kept while a cell's output comes in. -/
structure Output where
  decoder : Bytes := []
  echo : EchoFilter := {}
  hold : TailHold := {}
  tail : Text := []

/-- A poll of the output. -/
structure Poll where
  chunk : Bytes
  /-- The output has been quiet for a moment. -/
  quiet : Bool

def textOf (bytes : Bytes) : Text := bytes.map fun b => Char.ofNat b.toNat

/-- What is shown of the output: one plain command is run as typed, and nothing is echoed. -/
def shown (asTyped last : Bool) (echo : EchoFilter) (decoded : Text) : EchoFilter × Text :=
  if asTyped then (echo, decoded)
  else
    let pushed := echo.push decoded
    if last then (pushed.1.finish.1, pushed.2 ++ pushed.1.finish.2) else pushed

/-- `publish`, and what it shows. A cell that is silent shows nothing of it. -/
def publish (asTyped : Bool) (m : Output) (chunk : Bytes) (last quiet : Bool) : Output × Text :=
  let decoded := Utf8Decoder.push m.decoder chunk
  let decoder := if last then [] else decoded.1
  let text := textOf (if last then decoded.2 ++ Utf8Decoder.finish decoded.1 else decoded.2)
  let tail := m.tail ++ text
  let tail := tail.drop (tail.length - kErrorTailBytes)
  let shown := shown asTyped last m.echo text
  let pushed := m.hold.push shown.2
  let released := if !last && quiet then pushed.1.release else (pushed.1, [])
  ({ decoder, echo := shown.1, hold := released.1, tail }, pushed.2 ++ released.2)

/-- The polls while the command runs. -/
def polled (asTyped : Bool) (polls : List Poll) : Output × Text :=
  Transducer.run (fun m poll => publish asTyped m poll.chunk false poll.quiet) {} polls

/-- The output taken when the command has returned. -/
def ended (asTyped : Bool) (polls : List Poll) (last : Bytes) : Output × Text :=
  publish asTyped (polled asTyped polls).1 last true false

def ename (rc : Int) : Text := 'r' :: '(' :: ((toString rc).toList ++ [')'])

structure Executed where
  stdout : Text
  /-- The name and the message of the error that is published. -/
  error : Option (Text × Text)

/-- A cell whose command returned `rc`. -/
def executeRequestImpl (asTyped : Bool) (polls : List Poll) (last : Bytes) (rc : Int) : Executed :=
  let ended := ended asTyped polls last
  let message := if rc ≠ 0 then errorMessage ended.1.tail rc else []
  let evalue :=
    if message ≠ [] then message
    else if rc = 1 then "--Break--".toList else "Stata returned an error".toList
  -- the message and the return code as Stata printed them, shown as the error instead
  let printedError := if message ≠ [] then message ++ '\n' :: (ename rc ++ [';']) else []
  { stdout := (polled asTyped polls).2 ++ ended.2 ++ ended.1.hold.finish printedError
    error := if rc ≠ 0 then some (ename rc, evalue) else none }

/-! ## The calls made to the hold -/

def callsOf (asTyped : Bool) (m : Output) (chunk : Bytes) (last quiet : Bool) : List Call :=
  let decoded := Utf8Decoder.push m.decoder chunk
  let text := textOf (if last then decoded.2 ++ Utf8Decoder.finish decoded.1 else decoded.2)
  .push (shown asTyped last m.echo text).2 :: if !last && quiet then [.release] else []

def calls (asTyped : Bool) (polls : List Poll) (last : Bytes) : List Call :=
  (Transducer.run (fun m poll => ((publish asTyped m poll.chunk false poll.quiet).1,
      callsOf asTyped m poll.chunk false poll.quiet)) {} polls).2 ++
    callsOf asTyped (polled asTyped polls).1 last true false

/-- What the cell shows, the error and all. -/
def output (asTyped : Bool) (polls : List Poll) (last : Bytes) : Text :=
  TailHold.input (calls asTyped polls last)

/-- What is let out of the hold because the output is quiet: all that came before. -/
def released (asTyped : Bool) (polls : List Poll) (last : Bytes) : Text :=
  (TailHold.brought (calls asTyped polls last)).released

variable {asTyped : Bool} {polls : List Poll} {last : Bytes} {rc : Int}

theorem publish_calls (m : Output) (chunk : Bytes) (last quiet : Bool) :
    Transducer.run TailHold.step m.hold (callsOf asTyped m chunk last quiet) =
      ((publish asTyped m chunk last quiet).1.hold, (publish asTyped m chunk last quiet).2) := by
  cases hreleased : !last && quiet <;>
    simp [callsOf, publish, hreleased, Transducer.run_cons, TailHold.step]

theorem polled_calls (asTyped : Bool) (m : Output) (polls : List Poll) :
    let polled := Transducer.run (fun m poll => publish asTyped m poll.chunk false poll.quiet) m polls
    let made := Transducer.run (fun m poll => ((publish asTyped m poll.chunk false poll.quiet).1,
      callsOf asTyped m poll.chunk false poll.quiet)) m polls
    Transducer.run TailHold.step m.hold made.2 = (polled.1.hold, polled.2) := by
  induction polls generalizing m with
  | nil => rfl
  | cons poll polls ih =>
    have hnext := ih (publish asTyped m poll.chunk false poll.quiet).1
    simp only [Transducer.run_cons, Transducer.run_append, publish_calls] at hnext ⊢
    rw [hnext]

/-- What is published is what the hold lets out. -/
theorem stdout_eq (hrc : rc ≠ 0) {message : Text} (hne : message ≠ [])
    (hmessage : errorMessage (ended asTyped polls last).1.tail rc = message) :
    (executeRequestImpl asTyped polls last rc).stdout =
      TailHold.total (calls asTyped polls last) (message ++ '\n' :: marker rc) := by
  have hcalls : Transducer.run TailHold.step {} (calls asTyped polls last) =
      ((ended asTyped polls last).1.hold, (polled asTyped polls).2 ++ (ended asTyped polls last).2) := by
    rw [calls, Transducer.run_append]
    have hpolled := polled_calls asTyped {} polls
    simp only at hpolled
    simp only [hpolled, polled, publish_calls, ended]
  have hmarker : ename rc ++ [';'] = marker rc := by
    simp [ename, marker]
  simp only [executeRequestImpl, hmessage, hrc, hne, ne_eq, not_false_eq_true, if_true, hmarker,
    TailHold.total, TailHold.passed, TailHold.after, hcalls]

/-! ## The error in the output -/

/-- The cell's output ends in its error, the error is published as one, and what is published as
output is the output up to it. -/
def ShownOnce (output : Text) (rc : Int) (x : Executed) : Prop :=
  ∃ up rest message, output = up ++ rest ∧ LineStart up ∧ Block message rc rest ∧
    x.error = some (ename rc, message) ∧ x.stdout = up

/-- The output ends as the hold looks for it: the message and the return code at the start of a line,
unindented and with bare newlines, blanks after them, not more lines than are held, and none of it
let out before. -/
def Recognised (output released message : Text) (rc : Int) : Prop :=
  ∃ up blanks, output = up ++ (message ++ '\n' :: marker rc ++ blanks) ∧ (∀ c ∈ blanks, isSpace c) ∧
    LineStart up ∧ released <+: up ∧ (message ++ '\n' :: marker rc ++ blanks).count '\n' ≤ kLines

/-- What went out on the calls is not past a point in what was pushed, from which on there are no more
lines than are held, and none of it released. -/
theorem passed_le {calls : List Call} {up rest : Text} (h : TailHold.input calls = up ++ rest)
    (hreleased : (TailHold.brought calls).released <+: up) (hle : rest.count '\n' ≤ kLines) :
    ∃ mid, up = TailHold.passed calls ++ mid ∧ (TailHold.after calls).held = mid ++ rest := by
  obtain ⟨out, hpassed, -, hcut⟩ := TailHold.cut_calls calls
  have hwhole := (TailHold.passed_append_held calls).trans h
  obtain ⟨mid, hup, hheld⟩ | ⟨d, hmore, hrest⟩ := List.append_eq_append_iff.mp hwhole
  · exact ⟨mid, hup, hheld⟩
  · -- `d` went out of the rest: with what is held it is too many lines, unless it is nothing
    obtain ⟨u, hu⟩ := hreleased
    have hout : out = u ++ d := by
      rw [hpassed, ← hu, List.append_assoc] at hmore
      exact List.append_cancel_left hmore
    obtain rfl := (hout ▸ hcut).eq_of_le (hrest ▸ hle)
    exact ⟨[], by simpa using hmore.symm, hrest.symm⟩

theorem errorMessage_trimmed (text : Text) (rc : Int) :
    trim (errorMessage text rc) = errorMessage text rc := by
  rw [errorMessage]
  split
  · rfl
  · exact StataText.trim_trim _

theorem block_ne_nil {message text : Text} {rc : Int} (h : Block message rc text) : text ≠ [] := by
  obtain ⟨_, printed, mark, after, htext, -, -, -, -, hmark, -⟩ := h.parts
  rintro rfl
  obtain ⟨-, hnil⟩ := List.append_eq_nil_iff.mp htext.symm
  obtain ⟨rfl, -⟩ := List.append_eq_nil_iff.mp hnil
  exact StataText.marker_ne_nil rc hmark.symm

/-- A cell that fails shows its error once, if and only if the hold recognises it. -/
theorem error_shown_once_iff (hrc : rc ≠ 0)
    (hne : errorMessage (ended asTyped polls last).1.tail rc ≠ []) :
    ShownOnce (output asTyped polls last) rc (executeRequestImpl asTyped polls last rc) ↔
      Recognised (output asTyped polls last) (released asTyped polls last)
        (errorMessage (ended asTyped polls last).1.tail rc) rc := by
  generalize hmessage : errorMessage (ended asTyped polls last).1.tail rc = message at hne ⊢
  have hstdout := stdout_eq hrc hne hmessage
  have hwhole := TailHold.passed_append_held (calls asTyped polls last)
  constructor
  · rintro ⟨up, rest, _, houtput, hstart, hblock, -, hup⟩
    rw [hstdout, TailHold.total] at hup
    rcases TailHold.finish_cases (TailHold.after (calls asTyped polls last))
      (message ++ '\n' :: marker rc) with hkept | hends
    · -- with nothing left out, the error would be in it
      rw [hkept, hwhole] at hup
      rw [output, hup, List.self_eq_append_right] at houtput
      exact absurd houtput (block_ne_nil hblock)
    · obtain ⟨blanks, hblanks, hheld⟩ := hends.blanks
      obtain ⟨out, hpassed, -, -⟩ := TailHold.cut_calls (calls asTyped polls last)
      refine ⟨up, blanks, ?_, hblanks, hstart, ?_, ?_⟩
      · rw [output, ← hwhole, hheld, ← hup]
        exact (List.append_assoc _ _ _).symm
      · rw [← hup, hpassed, List.append_assoc]
        exact List.prefix_append _ _
      · refine le_trans ?_ (TailHold.held_le (calls asTyped polls last))
        rw [hheld]
        exact (List.sublist_append_right _ _).count_le _
  · rintro ⟨up, blanks, houtput, hblanks, hstart, hreleased, hle⟩
    -- the error is held whole, and `finish` leaves out no more
    obtain ⟨mid, hup, hheld⟩ := passed_le houtput hreleased hle
    have hmid : LineStart mid := by
      by_cases hnil : mid = []
      · exact .inl hnil
      · rw [hup] at hstart
        exact (TailHold.lineStart_append hnil).mp hstart
    have hends : TailHold.Ends (TailHold.after (calls asTyped polls last)).held
        (message ++ '\n' :: marker rc) mid := by
      refine ⟨by simp, ?_, ⟨blanks, hblanks, hheld⟩, hmid⟩
      have hmarked := StataText.stripped_marked (message ++ ['\n']) rc
      rwa [List.append_assoc] at hmarked
    have htrim : trim message = message := hmessage ▸ errorMessage_trimmed _ _
    refine ⟨up, _, message, houtput, hstart, StataText.block_of_message htrim hne hblanks, ?_, ?_⟩
    · simp [executeRequestImpl, hmessage, hrc, hne]
    · rw [hstdout, TailHold.total, hends.finish, hup]

theorem decodeFrom_ascii {bytes : Bytes} (h : bytes.all (· < 0x80) = true) :
    Utf8Decoder.decodeFrom bytes = (bytes, []) := by
  induction bytes with
  | nil => rw [Utf8Decoder.decodeFrom]
  | cons b bytes ih =>
    rw [List.all_cons, Bool.and_eq_true, decide_eq_true_iff] at h
    have hone : Utf8Decoder.utf8Length b = 1 := if_pos h.1
    rw [Utf8Decoder.decodeFrom, ih h.2]
    simp only [hone, if_true]

/-- The cell runs one plain command, whose output is taken when it has returned. -/
theorem ended_ascii {last : Bytes} (h : last.all (· < 0x80) = true) (hle : last.length ≤ kErrorTailBytes) :
    (ended true [] last).1.tail = textOf last ∧ calls true [] last = [.push (textOf last)] := by
  have hpush : Utf8Decoder.push [] last = ([], last) := by
    rw [Utf8Decoder.push, List.nil_append, decodeFrom_ascii h]
  have hdrop : (textOf last).length - kErrorTailBytes = 0 := by
    rw [textOf, List.length_map]
    exact Nat.sub_eq_zero_of_le hle
  constructor
  · simp [ended, polled, publish, hpush, Utf8Decoder.finish, hdrop]
  · simp [calls, callsOf, polled, hpush, Utf8Decoder.finish, shown]

/-- An output that a cell shows, as bytes. -/
def bytesOf (text : String) : Bytes := text.toList.map fun c => UInt8.ofNat c.toNat

theorem error_shown_once_missing :
    ShownOnce (output true [] (bytesOf "1\n\nmissing\nr(9);\n")) 9
      (executeRequestImpl true [] (bytesOf "1\n\nmissing\nr(9);\n") 9) := by
  obtain ⟨htail, hcalls⟩ : _ ∧ calls true [] (bytesOf "1\n\nmissing\nr(9);\n") = _ :=
    ended_ascii (by decide) (by decide)
  refine (error_shown_once_iff (by decide) ?_).mpr ?_
  · rw [htail]
    decide
  · refine ⟨"1\n\n".toList, ['\n'], ?_, List.forall_mem_singleton.mpr rfl, .inr rfl, ?_, ?_⟩
    · rw [output, hcalls, htail]
      decide
    · rw [released, hcalls]
      decide
    · rw [htail]
      decide

/-- A do-file that fails prints its return code again after its end: the message is read back, and
the hold leaves nothing out. -/
theorem do_file_error_shown_twice :
    let last := bytesOf "variable nosuchvar not found\nr(111);\n\nend of do-file\n\nr(111);\n"
    errorMessage (ended true [] last).1.tail 111 = "variable nosuchvar not found".toList ∧
      ¬ ShownOnce (output true [] last) 111 (executeRequestImpl true [] last 111) := by
  intro last
  obtain ⟨htail, hcalls⟩ : _ ∧ calls true [] last = _ := ended_ascii (by decide) (by decide)
  have hmessage : errorMessage (ended true [] last).1.tail 111 =
      "variable nosuchvar not found".toList := by
    rw [htail]
    decide
  refine ⟨hmessage, ?_⟩
  rintro ⟨up, rest, message, houtput, -, hblock, -, hup⟩
  have hall : TailHold.total (calls true [] last)
      ("variable nosuchvar not found".toList ++ '\n' :: marker 111) = output true [] last := by
    rw [output, hcalls]
    decide
  rw [stdout_eq (by decide) (by decide) hmessage, hall] at hup
  rw [hup, List.self_eq_append_right] at houtput
  exact block_ne_nil hblock houtput

end Jovian.StataInterpreter
