import Mathlib.Data.List.Induction

/-!
# Log — what has happened, in order

A state that keeps a log adds to its end. What a statement says about every place of the log, with
what is before and behind it, is said of one place more when an entry comes.

* **`split_snoc`** — a place in the longer log is the new entry's, or one of the log's.
* `getElem?_snoc` — the same, of an entry by its number.
-/

namespace Log

variable {α : Type*} {log pre post : List α} {a x : α}

theorem split_snoc (h : log ++ [a] = pre ++ x :: post) :
    (post = [] ∧ pre = log ∧ x = a) ∨ ∃ post', post = post' ++ [a] ∧ log = pre ++ x :: post' := by
  cases post using List.reverseRecOn with
  | nil =>
    have hends : log = pre ∧ [a] = [x] := List.append_inj' h rfl
    exact .inl ⟨rfl, hends.1.symm, (List.cons.inj hends.2).1.symm⟩
  | append_singleton post b =>
    rw [← List.cons_append, ← List.append_assoc] at h
    have hends : log = pre ++ x :: post ∧ [a] = [b] := List.append_inj' h rfl
    exact .inr ⟨post, by rw [hends.2], hends.1⟩

/-- The new entry is not what is looked for. -/
theorem split_snoc_of_ne (hne : x ≠ a) (h : log ++ [a] = pre ++ x :: post) :
    ∃ post', post = post' ++ [a] ∧ log = pre ++ x :: post' := by
  rcases split_snoc h with ⟨-, -, heq⟩ | h
  · exact absurd heq hne
  · exact h

/-- An entry keeps its number. -/
theorem getElem?_old {i : Nat} (h : log[i]? = some x) : (log ++ [a])[i]? = some x :=
  (List.getElem?_append_left (List.getElem?_eq_some_iff.mp h).1).trans h

theorem getElem?_snoc {i : Nat} : (log ++ [a])[i]? = some x ↔
    log[i]? = some x ∨ i = log.length ∧ x = a := by
  constructor
  · intro h
    rcases Nat.lt_or_ge i log.length with hlt | hge
    · rw [List.getElem?_append_left hlt] at h
      exact .inl h
    · have hlength := (List.getElem?_eq_some_iff.mp h).1
      rw [List.length_append, List.length_singleton] at hlength
      obtain rfl : i = log.length := by omega
      rw [List.getElem?_concat_length] at h
      exact .inr ⟨rfl, (Option.some.inj h).symm⟩
  · rintro (h | ⟨rfl, rfl⟩)
    · exact getElem?_old h
    · exact List.getElem?_concat_length

theorem take_snoc {i : Nat} (h : log[i]? = some x) : (log ++ [a]).take i = log.take i :=
  List.take_append_of_le_length (Nat.le_of_lt (List.getElem?_eq_some_iff.mp h).1)

end Log
