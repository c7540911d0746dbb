import Mathlib.Logic.Basic

/-!
# PathLock — a lock that is a file at one path

Who creates the file at the path has the lock; the file can be moved off the path and put
back. `Kept place aside live` says that no two locks have a live owner, and that the lock of
a live owner is at the path, or is off it in the hands of one who puts it back. There is one
rule for each thing that can be done at the path:

* **`Kept.mono`** — owners give their locks up, locks that nobody owns are lost.
* **`Kept.take`** — a lock is created where no file is.
* **`Kept.displace`**, **`Kept.restore`** — a lock is moved off the path, and put back.
* **`Kept.vacate`** — the file of a lock that nobody owns is removed.
-/

namespace PathLock

variable {L : Type*}

/-- `place` is the lock at the path, `aside` those moved off it by one who puts them back. -/
structure Kept (place : Option L) (aside live : L → Prop) : Prop where
  one : ∀ m n, live m → live n → m = n
  kept : ∀ n, live n → place = some n ∨ place = none ∧ aside n

variable {place : Option L} {aside aside' live live' : L → Prop}

/-- A live lock other than the one at the path there is not. -/
theorem Kept.eq_of_place (h : Kept place aside live) {m n : L} (hplace : place = some m)
    (hn : live n) : n = m := by
  rcases h.kept n hn with hkept | ⟨hnone, -⟩
  · exact Option.some.inj (hkept.symm.trans hplace)
  · rw [hplace] at hnone
    cases hnone

/-- While a file is at the path, none that is off it is a live owner's. -/
theorem Kept.at_place {m : L} (h : Kept (some m) aside live) : Kept (some m) aside' live where
  one := h.one
  kept := fun _ hn => .inl (h.eq_of_place rfl hn ▸ rfl)

theorem Kept.aside_of_none (h : Kept none aside live) {n : L} (hn : live n) : aside n := by
  rcases h.kept n hn with hkept | ⟨-, haside⟩
  · cases hkept
  · exact haside

theorem Kept.mono (h : Kept place aside live) (hlive : ∀ n, live' n → live n)
    (haside : ∀ n, live' n → aside n → aside' n) : Kept place aside' live' where
  one := fun m n hm hn => h.one m n (hlive m hm) (hlive n hn)
  kept := fun n hn => (h.kept n (hlive n hn)).imp_right fun hoff => ⟨hoff.1, haside n hn hoff.2⟩

/-- The path is free and no live lock is off it: nobody owns a lock. -/
theorem Kept.take (h : Kept none aside live) (haside : ∀ n, aside n → ¬live n) (t : L)
    (hlive : ∀ n, live' n → live n ∨ n = t) : Kept (some t) aside' live' := by
  have hfree : ∀ n, live' n → n = t := by
    intro n hn
    rcases hlive n hn with hold | rfl
    · exact absurd hold (haside n (h.aside_of_none hold))
    · rfl
  refine ⟨fun m n hm hn => (hfree m hm).trans (hfree n hn).symm, fun n hn => .inl ?_⟩
  rw [hfree n hn]

theorem Kept.displace {m : L} (h : Kept (some m) aside live) (haside : aside' m) :
    Kept none aside' live where
  one := h.one
  kept := fun _ hn => .inr ⟨rfl, h.eq_of_place rfl hn ▸ haside⟩

/-- No other live lock is off the path when `m` is put back. -/
theorem Kept.restore (h : Kept none aside live) (m : L) (hm : ∀ n, aside n → n ≠ m → ¬live n) :
    Kept (some m) aside' live where
  one := h.one
  kept := by
    intro n hn
    by_cases heq : n = m
    · exact .inl (heq ▸ rfl)
    · exact absurd hn (hm n (h.aside_of_none hn) heq)

theorem Kept.vacate {m : L} (h : Kept (some m) aside live) (hm : ¬live m) :
    Kept none aside' live where
  one := h.one
  kept := fun _ hn => absurd (h.eq_of_place rfl hn ▸ hn) hm

end PathLock
