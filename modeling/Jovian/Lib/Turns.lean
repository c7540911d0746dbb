import Mathlib.Data.List.Basic

/-!
# Turns — jobs that take turns

Jobs wait in a queue. The first one takes a turn: it goes to the end of the queue with a turn less
to take, or it is done. All of them have the same number of turns to take when they are started.

* **`Fair.first`** — they are done in the order they were started.
-/

namespace Turns

/-- A job, and the turns it still takes before its last one. -/
structure Job (α : Type*) where
  item : α
  left : Nat
deriving DecidableEq

variable {α : Type*}

/-- A new job. -/
def start (turns : Nat) (a : α) (jobs : List (Job α)) : List (Job α) :=
  jobs ++ [⟨a, turns⟩]

/-- The first job's turn: the job that is done, and what waits then. -/
def turn : List (Job α) → Option α × List (Job α)
  | [] => (none, [])
  | ⟨a, 0⟩ :: rest => (some a, rest)
  | ⟨a, left + 1⟩ :: rest => (none, rest ++ [⟨a, left⟩])

/-! ## Fairness -/

section

variable (r : α → α → Prop)

/-- What is so of two jobs, `i` waiting before `j`: the one started first is done first. -/
def Ahead (i j : Job α) : Prop :=
  r i.item j.item ∧ i.left ≤ j.left ∨ r j.item i.item ∧ j.left < i.left

/-- The jobs in the queue were started in the order `r`. -/
structure Fair (turns : Nat) (jobs : List (Job α)) : Prop where
  ahead : jobs.Pairwise (Ahead r)
  left_le : ∀ j ∈ jobs, j.left ≤ turns

end

variable {r : α → α → Prop} {turns : Nat} {jobs rest : List (Job α)} {a : α}

theorem fair_nil : Fair r turns [] := by
  constructor
  · exact .nil
  · exact fun j hj => absurd hj List.not_mem_nil

theorem Fair.start (h : Fair r turns jobs) (hnew : ∀ j ∈ jobs, r j.item a) :
    Fair r turns (start turns a jobs) := by
  constructor
  · refine List.pairwise_append.mpr ⟨h.ahead, List.pairwise_singleton _ _, fun i hi j hj => ?_⟩
    rw [List.mem_singleton.mp hj]
    exact .inl ⟨hnew i hi, h.left_le i hi⟩
  · intro j hj
    rcases List.mem_append.mp hj with hj | hj
    · exact h.left_le j hj
    · cases List.mem_singleton.mp hj
      exact Nat.le_refl turns

theorem Fair.tail {j : Job α} (h : Fair r turns (j :: rest)) : Fair r turns rest := by
  constructor
  · exact h.ahead.of_cons
  · exact fun i hi => h.left_le i (List.mem_cons_of_mem _ hi)

/-- A turn that is not the last: the order is kept. -/
theorem Fair.again {left : Nat} (h : Fair r turns (⟨a, left + 1⟩ :: rest)) :
    Fair r turns (rest ++ [⟨a, left⟩]) := by
  obtain ⟨hfirst, hrest⟩ := List.pairwise_cons.mp h.ahead
  constructor
  · refine List.pairwise_append.mpr ⟨hrest, List.pairwise_singleton _ _, fun i hi j hj => ?_⟩
    rw [List.mem_singleton.mp hj]
    rcases hfirst i hi with ⟨hr, hle⟩ | ⟨hr, hlt⟩
    · have hlt : left < i.left := hle
      exact .inr ⟨hr, hlt⟩
    · exact .inl ⟨hr, Nat.le_of_lt_succ hlt⟩
  · intro j hj
    rcases List.mem_append.mp hj with hj | hj
    · exact h.left_le j (List.mem_cons_of_mem _ hj)
    · rw [List.mem_singleton.mp hj]
      exact Nat.le_of_succ_le (h.left_le _ List.mem_cons_self)

theorem Fair.turn (h : Fair r turns jobs) : Fair r turns (turn jobs).2 := by
  match jobs, h with
  | [], h => exact h
  | ⟨a, 0⟩ :: rest, h => exact h.tail
  | ⟨a, left + 1⟩ :: rest, h => exact h.again

/-- **The job that is done was started first.** -/
theorem Fair.first (h : Fair r turns jobs) (hdone : (Turns.turn jobs).1 = some a) :
    ∀ j ∈ (Turns.turn jobs).2, r a j.item := by
  match jobs, h with
  | [], h => exact fun j hj => absurd hj List.not_mem_nil
  | ⟨b, 0⟩ :: rest, h =>
    obtain rfl : b = a := Option.some.inj hdone
    intro j hj
    rcases (List.pairwise_cons.mp h.ahead).1 j hj with ⟨hr, -⟩ | ⟨-, hlt⟩
    · exact hr
    · exact absurd hlt (Nat.not_lt_zero _)
  | ⟨b, left + 1⟩ :: rest, h => cases hdone

/-- What waits after a turn was waiting, and so was the job that is done. -/
theorem mem_turn (b : α) : (∃ j ∈ jobs, j.item = b) ↔
    (turn jobs).1 = some b ∨ ∃ j ∈ (turn jobs).2, j.item = b := by
  match jobs with
  | [] => simp [turn]
  | ⟨a, 0⟩ :: rest => simp [turn]
  | ⟨a, left + 1⟩ :: rest => simp [turn, or_comm]

end Turns
