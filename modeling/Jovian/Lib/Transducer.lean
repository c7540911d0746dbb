import Mathlib.Data.List.Basic

/-!
# Transducer — a machine that writes as it reads

`run step s inputs` is the state after the inputs and all that was written on them, in order.

* **`run_append`** — reading in two parts is reading at once.
* **`run_simulates`** — two machines read the same inputs: what one step of both keeps about their
  states, what they have written and what is left to read, the run keeps.
-/

namespace Transducer

variable {σ τ ι ω : Type*} {step : σ → ι → σ × List ω} {s : σ}

def run (step : σ → ι → σ × List ω) (s : σ) : List ι → σ × List ω
  | [] => (s, [])
  | i :: inputs =>
    ((run step (step s i).1 inputs).1, (step s i).2 ++ (run step (step s i).1 inputs).2)

@[simp] theorem run_nil : run step s [] = (s, []) := rfl

theorem run_cons (i : ι) (inputs : List ι) :
    run step s (i :: inputs) = ((run step (step s i).1 inputs).1,
      (step s i).2 ++ (run step (step s i).1 inputs).2) := rfl

@[simp] theorem run_singleton (i : ι) : run step s [i] = step s i := by
  simp [run_cons]

theorem run_append (a b : List ι) :
    run step s (a ++ b) = ((run step (run step s a).1 b).1,
      (run step s a).2 ++ (run step (run step s a).1 b).2) := by
  induction a generalizing s with
  | nil => rfl
  | cons i a ih =>
    rw [List.cons_append, run_cons, ih, run_cons]
    simp only [List.append_assoc]

/-- An invariant of the states is one of the runs. -/
theorem run_keeps {P : σ → Prop} (hstep : ∀ s i, P s → P (step s i).1) (hs : P s)
    (inputs : List ι) : P (run step s inputs).1 := by
  induction inputs generalizing s with
  | nil => exact hs
  | cons i inputs ih => exact ih (hstep s i hs)

/-- The relation is about both states, all that either has written, and what is left to read. -/
theorem run_simulates {other : τ → ι → τ × List ω} {t : τ} {R : σ → τ → List ω → List ω → List ι → Prop}
    (hstep : ∀ s t o p i rest, R s t o p (i :: rest) →
      R (step s i).1 (other t i).1 (o ++ (step s i).2) (p ++ (other t i).2) rest)
    {o p : List ω} {rest : List ι} (inputs : List ι) (h : R s t o p (inputs ++ rest)) :
    R (run step s inputs).1 (run other t inputs).1 (o ++ (run step s inputs).2)
      (p ++ (run other t inputs).2) rest := by
  induction inputs generalizing s t o p with
  | nil => simpa using h
  | cons i inputs ih =>
    have hnext := ih (hstep s t o p i (inputs ++ rest) h)
    simpa only [run_cons, List.append_assoc] using hnext

end Transducer
