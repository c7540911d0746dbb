import Jovian.Lib.Transducer
import Mathlib.Data.List.Basic

/-!
# Lines — a text that comes in parts, taken line by line

`split` is the lines that are ended, at `\n` or `\r\n`, and what is left of the text.

* **`split_append`** — a text that is kept until its line is ended is split as the whole is.
-/

namespace Lines

abbrev Text := List Char

/-- A `\r` before the end is not the line's. -/
def ended (line : Text) : Text := if line.getLast? = some '\r' then line.dropLast else line

def feed (line : Text) (c : Char) : Text × List Text :=
  if c = '\n' then ([], [ended line]) else (line ++ [c], [])

/-- `text.split(/\r?\n/)`, the last part apart. -/
def split (text : Text) : List Text × Text :=
  let fed := Transducer.run feed [] text
  (fed.2, fed.1)

@[simp] theorem split_nil : split [] = ([], []) := rfl

theorem run_unended {line text : Text} (h : '\n' ∉ text) :
    Transducer.run feed line text = (line ++ text, []) := by
  induction text generalizing line with
  | nil => rw [Transducer.run_nil, List.append_nil]
  | cons c text ih =>
    rw [List.mem_cons, not_or] at h
    rw [Transducer.run_cons, feed, if_neg (Ne.symm h.1), ih h.2, List.append_assoc]
    rfl

/-- What is left has no end in it. -/
theorem split_rest (text : Text) : '\n' ∉ (split text).2 := by
  refine Transducer.run_keeps (P := fun line : Text => '\n' ∉ line) (fun line c hline => ?_)
    List.not_mem_nil text
  rw [feed]
  split
  · exact List.not_mem_nil
  · rename_i hc
    simp only [List.mem_append, List.mem_singleton, not_or]
    exact ⟨hline, Ne.symm hc⟩

theorem split_append (a b : Text) : split (a ++ b) =
    ((split a).1 ++ (split ((split a).2 ++ b)).1, (split ((split a).2 ++ b)).2) := by
  have hrest : Transducer.run feed [] (Transducer.run feed [] a).1 =
      ((Transducer.run feed [] a).1, []) := run_unended (split_rest a)
  simp only [split, Transducer.run_append, hrest, List.nil_append]

end Lines
