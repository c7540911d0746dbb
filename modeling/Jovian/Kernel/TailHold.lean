import Jovian.Kernel.EchoFilter
import Mathlib.Data.List.DropRight
import Mathlib.Data.List.Infix
import Mathlib.Data.List.Induction

/-!
# TailHold — the last lines of a cell's output wait

When the cell fails its error is printed last, and published as the error: the hold keeps the last
lines back, and `finish` leaves the error out.

* `Cut` — how what is held was cut off from what went out; a text is cut in one way only.
* **`holds_iff`** — the hold loses nothing, and drops the error only where it begins a line, unless
  a `release` let the start of that line out.
-/

namespace Jovian

open EchoFilter (Text)

@[ext] structure TailHold where
  held : Text := []
deriving DecidableEq

namespace TailHold

open EchoFilter (isSpace)

def kLines : Nat := 8

/-- The loop of `push`, down from `i`: where the last `kLines` complete lines begin, and a line not
yet complete. -/
def cutFrom (held : Text) (lines : Nat) : Nat → Option Nat
  | 0 => none
  | i + 1 =>
    if held[i]? = some '\n' then
      if lines = kLines then some (i + 1) else cutFrom held (lines + 1) i
    else cutFrom held lines i

/-- What may go out now of `text` added to what is held. -/
def push (m : TailHold) (text : Text) : TailHold × Text :=
  let held := m.held ++ text
  match cutFrom held 0 held.length with
  | none => ({ held }, [])
  | some cut => ({ held := held.drop cut }, held.take cut)

/-- Everything held: the output has been quiet. -/
def release (m : TailHold) : TailHold × Text := ({ held := [] }, m.held)

/-- The text up to its `end`: without the blanks it ends in. -/
def stripped (text : Text) : Text := text.rdropWhile isSpace

/-- The end of the output: everything held, without `error` when it ends with it. -/
def finish (m : TailHold) (error : Text) : Text :=
  let out := m.held
  if error = [] then out
  else if error.isSuffixOf (stripped out) then
    let start := (stripped out).length - error.length
    -- and only at the start of a line
    if start = 0 ∨ out[start - 1]? = some '\n' then out.take start else out
  else out

/-! ## The calls of a cell -/

inductive Call where
  | push (text : Text)
  | release
deriving DecidableEq

def step (m : TailHold) : Call → TailHold × Text
  | .push text => m.push text
  | .release => m.release

/-- The hold after the calls. -/
def after (calls : List Call) : TailHold := (Transducer.run step {} calls).1

/-- What went out on the calls. -/
def passed (calls : List Call) : Text := (Transducer.run step {} calls).2

/-- What the calls brought, up to the last `release` and since. -/
structure Brought where
  released : Text := []
  since : Text := []

def Brought.add (b : Brought) : Call → Brought
  | .push text => { b with since := b.since ++ text }
  | .release => { released := b.released ++ b.since, since := [] }

def brought (calls : List Call) : Brought := calls.foldl Brought.add {}

/-- All that was pushed. -/
def input (calls : List Call) : Text := (brought calls).released ++ (brought calls).since

def total (calls : List Call) (error : Text) : Text := passed calls ++ (after calls).finish error

/-- A text after which a line begins. -/
def LineStart (text : Text) : Prop := text = [] ∨ text.getLast? = some '\n'

instance (text : Text) : Decidable (LineStart text) := inferInstanceAs (Decidable (_ ∨ _))

/-- What a hold promises on its calls and the `finish` after them. -/
structure Holds (calls : List Call) (error : Text) : Prop where
  conserves : passed calls ++ (after calls).held = input calls
  /-- What `finish` drops is the error, at the start of a line, with blanks after it. -/
  drops : (after calls).finish error = (after calls).held ∨
    ∃ blanks, (∀ c ∈ blanks, isSpace c) ∧
      (after calls).held = (after calls).finish error ++ (error ++ blanks) ∧
      LineStart (total calls error)
  /-- Without a `release` it does not matter how the input was split. -/
  unsplit : .release ∉ calls → ∀ calls', .release ∉ calls' → input calls' = input calls →
    total calls' error = total calls error
  bounded : ∀ earlier text, (earlier ++ [.push text]) <+: calls →
    (after (earlier ++ [.push text])).held.count '\n' ≤ kLines

/-! ## Where a text is cut -/

theorem lineStart_append {a b : Text} (h : b ≠ []) : LineStart (a ++ b) ↔ LineStart b := by
  obtain ⟨c, hc⟩ := Option.ne_none_iff_exists'.mp (mt List.getLast?_eq_none_iff.mp h)
  simp [LineStart, h, hc, List.getLast?_append]

theorem LineStart.count_pos {text : Text} (h : LineStart text) (hne : text ≠ []) :
    0 < text.count '\n' :=
  List.count_pos_iff.mpr (List.mem_of_getLast? (h.resolve_left hne))

/-- A text with at most `kLines` complete lines is held whole, and of a longer one the last
`kLines`. -/
structure Cut (out held : Text) : Prop where
  whole : LineStart out
  le : held.count '\n' ≤ kLines
  full : out ≠ [] → held.count '\n' = kLines

theorem Cut.eq_of_le {out d held : Text} (h : Cut (out ++ d) held) (hle : (d ++ held).count '\n' ≤ kLines) :
    d = [] := by
  by_contra hd
  have hfull := h.full (by simp [hd])
  have hpos := ((lineStart_append hd).mp h.whole).count_pos hd
  rw [List.count_append] at hle
  omega

/-- A text is cut in one way only. -/
theorem Cut.unique {out out' held held' : Text} (h : Cut out held) (h' : Cut out' held')
    (heq : out ++ held = out' ++ held') : out = out' ∧ held = held' := by
  obtain ⟨d, rfl, rfl⟩ | ⟨d, rfl, rfl⟩ := List.append_eq_append_iff.mp heq
  · obtain rfl := h'.eq_of_le h.le
    simp
  · obtain rfl := h.eq_of_le h'.le
    simp

theorem take_succ_newline {held : Text} {i : Nat} (h : held[i]? = some '\n') :
    held.take (i + 1) = held.take i ++ ['\n'] := by
  rw [List.take_add_one, h]
  rfl

theorem count_take_other {held : Text} {i : Nat} (h : held[i]? ≠ some '\n') :
    (held.take (i + 1)).count '\n' = (held.take i).count '\n' := by
  rw [List.take_add_one, List.count_append]
  cases hc : held[i]? with
  | none => simp
  | some c =>
    have hne : c ≠ '\n' := fun hcn => h (by rw [hc, hcn])
    simp [hne]

theorem cutFrom_none {held : Text} {lines i : Nat} (hlines : lines ≤ kLines)
    (h : cutFrom held lines i = none) : lines + (held.take i).count '\n' ≤ kLines := by
  induction i generalizing lines with
  | zero => simpa using hlines
  | succ i ih =>
    rw [cutFrom] at h
    split at h
    · next hnewline =>
      split at h
      · cases h
      · next hne =>
        have hcount := ih (by omega) h
        rw [take_succ_newline hnewline, List.count_append, List.count_singleton_self]
        omega
    · next hother =>
      rw [count_take_other hother]
      exact ih hlines h

theorem cutFrom_some {held : Text} {lines i cut : Nat} (hlines : lines ≤ kLines)
    (h : cutFrom held lines i = some cut) : (held.take cut).getLast? = some '\n' ∧
      lines + (held.take i).count '\n' = kLines + (held.take cut).count '\n' := by
  induction i generalizing lines with
  | zero => cases h
  | succ i ih =>
    rw [cutFrom] at h
    split at h
    · next hnewline =>
      split at h
      · next heq =>
        obtain rfl := Option.some.inj h
        refine ⟨?_, by rw [heq]⟩
        rw [take_succ_newline hnewline, List.getLast?_concat]
      · next hne =>
        obtain ⟨hlast, hcount⟩ := ih (by omega) h
        refine ⟨hlast, ?_⟩
        rw [take_succ_newline hnewline, List.count_append, List.count_singleton_self]
        omega
    · next hother =>
      rw [count_take_other hother]
      exact ih hlines h

theorem Cut.push {out : Text} {m : TailHold} (h : Cut out m.held) (text : Text) :
    Cut (out ++ (m.push text).2) (m.push text).1.held := by
  have hfull : out ≠ [] → kLines ≤ (m.held ++ text).count '\n' := fun hne => by
    rw [List.count_append, h.full hne]
    exact Nat.le_add_right _ _
  rw [TailHold.push]
  split
  · next hcut =>
    have hle := cutFrom_none (Nat.zero_le _) hcut
    rw [List.take_length, Nat.zero_add] at hle
    refine ⟨by simpa using h.whole, hle, fun hne => le_antisymm hle (hfull (by simpa using hne))⟩
  · next cut hcut =>
    -- what goes out ends with a line, and `kLines` are left
    obtain ⟨hlast, hcount⟩ := cutFrom_some (Nat.zero_le _) hcut
    have hne : (m.held ++ text).take cut ≠ [] := fun hnil => by simp [hnil] at hlast
    have hsplit := congrArg (List.count '\n') (List.take_append_drop cut (m.held ++ text))
    rw [List.count_append] at hsplit
    rw [List.take_length, Nat.zero_add] at hcount
    have hheld : ((m.held ++ text).drop cut).count '\n' = kLines := by omega
    exact ⟨(lineStart_append hne).mpr (.inr hlast), hheld.le, fun _ => hheld⟩

theorem push_append (m : TailHold) (text : Text) :
    (m.push text).2 ++ (m.push text).1.held = m.held ++ text := by
  rw [push]
  split
  · rfl
  · exact List.take_append_drop _ _

/-! ## What the calls leave -/

theorem run_snoc (calls : List Call) (call : Call) :
    passed (calls ++ [call]) = passed calls ++ (step (after calls) call).2 ∧
      after (calls ++ [call]) = (step (after calls) call).1 := by
  simp [passed, after, Transducer.run_append]

theorem brought_snoc (calls : List Call) (call : Call) :
    brought (calls ++ [call]) = (brought calls).add call := by
  simp [brought]

/-- All that was pushed before the last `release` went out; what was pushed since is cut. -/
theorem cut_calls (calls : List Call) : ∃ out, passed calls = (brought calls).released ++ out ∧
    out ++ (after calls).held = (brought calls).since ∧ Cut out (after calls).held := by
  induction calls using List.reverseRecOn with
  | nil => exact ⟨[], rfl, rfl, .inl rfl, Nat.zero_le _, fun h => absurd rfl h⟩
  | append_singleton calls call ih =>
    obtain ⟨out, hpassed, hsince, hcut⟩ := ih
    obtain ⟨hrun, hafter⟩ := run_snoc calls call
    rw [hrun, hafter, brought_snoc, hpassed]
    cases call with
    | push text =>
      refine ⟨out ++ ((after calls).push text).2, List.append_assoc _ _ _, ?_, hcut.push text⟩
      rw [List.append_assoc]
      exact (congrArg (out ++ ·) (push_append (after calls) text)).trans (by
        rw [← List.append_assoc, hsince]
        rfl)
    | release =>
      refine ⟨[], ?_, rfl, .inl rfl, Nat.zero_le _, fun h => absurd rfl h⟩
      rw [List.append_nil, List.append_assoc]
      exact congrArg (_ ++ ·) hsince

theorem passed_append_held (calls : List Call) : passed calls ++ (after calls).held = input calls := by
  obtain ⟨out, hpassed, hsince, -⟩ := cut_calls calls
  rw [hpassed, List.append_assoc, hsince, input]

theorem held_le (calls : List Call) : (after calls).held.count '\n' ≤ kLines := by
  obtain ⟨out, -, -, hcut⟩ := cut_calls calls
  exact hcut.le

theorem released_of_pushes {calls : List Call} (h : .release ∉ calls) :
    (brought calls).released = [] := by
  induction calls using List.reverseRecOn with
  | nil => rfl
  | append_singleton calls call ih =>
    rw [brought_snoc]
    cases call with
    | push text => exact ih (by simpa using h)
    | release => simp at h

/-- The pushes of a text leave the same however it was split. -/
theorem unsplit {calls calls' : List Call} (h : .release ∉ calls) (h' : .release ∉ calls')
    (heq : input calls' = input calls) : passed calls' = passed calls ∧ after calls' = after calls := by
  obtain ⟨out, hpassed, hsince, hcut⟩ := cut_calls calls
  obtain ⟨out', hpassed', hsince', hcut'⟩ := cut_calls calls'
  simp only [input, released_of_pushes h, released_of_pushes h', List.nil_append, ← hsince, ← hsince'] at heq
  obtain ⟨rfl, hheld⟩ := hcut'.unique hcut heq
  exact ⟨by rw [hpassed, hpassed', released_of_pushes h, released_of_pushes h'], TailHold.ext hheld⟩

/-! ## The error left out -/

theorem held_stripped (text : Text) : ∃ blanks, (∀ c ∈ blanks, isSpace c) ∧
    text = stripped text ++ blanks := by
  refine ⟨text.rtakeWhile isSpace, fun c hc => List.mem_rtakeWhile_imp hc, ?_⟩
  exact (List.rdropWhile_append_rtakeWhile ..).symm

theorem stripped_append {blanks : Text} (h : ∀ c ∈ blanks, isSpace c) (text : Text) :
    stripped (text ++ blanks) = stripped text := by
  rw [stripped, List.rdropWhile, List.reverse_append,
    List.dropWhile_append_of_pos (by simpa using h)]
  rfl

theorem stripped_append_iff {error : Text} (hne : error ≠ []) (up : Text) :
    stripped (up ++ error) = up ++ error ↔ stripped error = error := by
  rw [stripped, stripped, List.rdropWhile_eq_self_iff, List.rdropWhile_eq_self_iff]
  refine ⟨fun h hl => ?_, fun h hl => ?_⟩
  · have hlast := h (by simp [hne])
    rwa [List.getLast_append_of_ne_nil _ hne] at hlast
  · rw [List.getLast_append_of_ne_nil _ hne]
    exact h hne

/-- The text ends with the error and blanks, and the error begins a line of it. -/
structure Ends (text error up : Text) : Prop where
  nonempty : error ≠ []
  ended : stripped error = error
  blanks : ∃ blanks, (∀ c ∈ blanks, isSpace c) ∧ text = up ++ (error ++ blanks)
  whole : LineStart up

theorem start_iff (up rest : Text) :
    (up.length = 0 ∨ (up ++ rest)[up.length - 1]? = some '\n') ↔ LineStart up := by
  cases up using List.reverseRecOn with
  | nil => simp [LineStart]
  | append_singleton up c => simp [LineStart]

theorem finish_cases (m : TailHold) (error : Text) :
    m.finish error = m.held ∨ Ends m.held error (m.finish error) := by
  simp only [finish]
  split
  · exact .inl rfl
  · next hne =>
    split
    · next hends =>
      -- what is held is `up`, the error and blanks
      obtain ⟨up, hup⟩ := List.isSuffixOf_iff_suffix.mp hends
      obtain ⟨blanks, hblanks, hheld⟩ := held_stripped m.held
      have hended : stripped error = error := by
        rw [← stripped_append_iff hne up, hup]
        exact List.rdropWhile_idempotent ..
      rw [← hup, List.append_assoc] at hheld
      have hstart : (stripped m.held).length - error.length = up.length := by
        rw [← hup, List.length_append]
        omega
      have htake : m.held.take up.length = up := by
        rw [hheld, List.take_left]
      rw [hstart, htake]
      split
      · next hline =>
        rw [hheld, start_iff] at hline
        exact .inr ⟨hne, hended, ⟨blanks, hblanks, hheld⟩, hline⟩
      · exact .inl rfl
    · exact .inl rfl

/-- An error that ends in no blank is left out where it ends the text. -/
theorem Ends.finish {m : TailHold} {error up : Text} (h : Ends m.held error up) :
    m.finish error = up := by
  obtain ⟨blanks, hblanks, hheld⟩ := h.blanks
  have hstripped : stripped m.held = up ++ error := by
    rw [hheld, ← List.append_assoc, stripped_append hblanks, (stripped_append_iff h.nonempty up).mpr h.ended]
  have hstart : (stripped m.held).length - error.length = up.length := by
    rw [hstripped, List.length_append]
    omega
  have hline : up.length = 0 ∨ m.held[up.length - 1]? = some '\n' := by
    rw [hheld]
    exact (start_iff ..).mpr h.whole
  have hends : error.isSuffixOf (stripped m.held) = true :=
    List.isSuffixOf_iff_suffix.mpr ⟨up, hstripped.symm⟩
  simp only [TailHold.finish, h.nonempty, hends, hstart, if_false, if_true, if_pos hline]
  rw [hheld, List.take_left]

/-- What goes as the error goes at the start of a line, where it does so when it is all that was
pushed since the last `release`. -/
theorem Ends.lineStart_total {calls : List Call} {error : Text}
    (h : Ends (after calls).held error ((after calls).finish error))
    (hall : stripped (brought calls).since = error → (brought calls).since.count '\n' ≤ kLines →
      LineStart (brought calls).released) : LineStart (total calls error) := by
  obtain ⟨out, hpassed, hsince, hcut⟩ := cut_calls calls
  obtain ⟨blanks, hblanks, hheld⟩ := h.blanks
  rw [total]
  by_cases hup : (after calls).finish error = []
  · rw [hup, List.nil_append] at hheld
    rw [hup, List.append_nil, hpassed]
    by_cases hout : out = []
    · -- what is held is all that was pushed since
      rw [hout, List.nil_append] at hsince
      rw [hout, List.append_nil]
      refine hall ?_ (hsince ▸ hcut.le)
      rw [← hsince, hheld, stripped_append hblanks, h.ended]
    · exact (lineStart_append hout).mpr hcut.whole
  · exact (lineStart_append hup).mpr h.whole

/-- An error that is all that was pushed since the last `release`, and is held, goes whole. -/
theorem finish_all {calls : List Call} {error : Text} (hne : error ≠ [])
    (herror : stripped (brought calls).since = error) (hle : (brought calls).since.count '\n' ≤ kLines) :
    passed calls = (brought calls).released ∧ (after calls).held = (brought calls).since ∧
      (after calls).finish error = [] := by
  obtain ⟨out, hpassed, hsince, hcut⟩ := cut_calls calls
  have hwhole : Cut ([] ++ out) (after calls).held := hcut
  have hout : out = [] := hwhole.eq_of_le (by rwa [hsince])
  rw [hout, List.nil_append] at hsince
  rw [hout, List.append_nil] at hpassed
  have hends : Ends (after calls).held error [] := by
    obtain ⟨blanks, hblanks, heq⟩ := held_stripped (after calls).held
    rw [hsince, herror, ← hsince] at heq
    refine ⟨hne, ?_, ⟨blanks, hblanks, heq⟩, .inl rfl⟩
    rw [← herror]
    exact List.rdropWhile_idempotent ..
  exact ⟨hpassed, hsince, hends.finish⟩

/-- The hold keeps its promises on the calls, if and only if the text pushed since the last `release`
is not the error, or begins a line, or has more lines than the hold keeps. -/
theorem holds_iff (calls : List Call) (error : Text) : Holds calls error ↔
    (error ≠ [] → stripped (brought calls).since = error →
      (brought calls).since.count '\n' ≤ kLines → LineStart (brought calls).released) := by
  constructor
  · intro h hne herror hle
    obtain ⟨hpassed, hheld, hfinish⟩ := finish_all hne herror hle
    rcases h.drops with hkept | ⟨blanks, -, -, hline⟩
    · -- nothing is left of what is held, and yet it is the error
      rw [hfinish, hheld] at hkept
      rw [← hkept] at herror
      exact absurd herror.symm hne
    · rwa [total, hfinish, hpassed, List.append_nil] at hline
  · intro h
    refine ⟨passed_append_held calls, ?_, ?_, ?_⟩
    · refine (finish_cases (after calls) error).imp id fun hends => ?_
      obtain ⟨blanks, hblanks, hheld⟩ := hends.blanks
      exact ⟨blanks, hblanks, hheld, hends.lineStart_total (h hends.nonempty)⟩
    · intro hcalls calls' hcalls' heq
      obtain ⟨hpassed, hafter⟩ := unsplit hcalls hcalls' heq
      rw [total, total, hpassed, hafter]
    · exact fun earlier text _ => held_le _

/-- The blanks a line begins with went out; the error after them begins no line. -/
theorem error_in_mid_line_dropped :
    ¬ Holds [.push "  ".toList, .release, .push "no observations\nr(2000);\n".toList]
      "no observations\nr(2000);".toList := by
  intro h
  rcases h.drops with hkept | ⟨_, _, _, hline⟩
  · revert hkept
    decide
  · revert hline
    decide

end TailHold

end Jovian
