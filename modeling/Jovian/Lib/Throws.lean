/-!
# Throws — programs that throw, and keep what they have done

A program over a state, in `EStateM`: when it throws, the state is the one it had come to. Two
things are carried through such a program rule by rule, whichever way it ends:

* **`Tame f P x`** — `x` leaves `f` of the state as it was, and throws only what `P` allows.
-/

namespace Throws

variable {ε σ α β γ : Type}

/-- The state a program leaves, whether it returns or throws. -/
def final (x : EStateM ε σ α) (s : σ) : σ :=
  match x s with
  | .ok _ s' | .error _ s' => s'

theorem final_ok {x : EStateM ε σ α} {s s' : σ} {a : α} (h : x s = .ok a s') : final x s = s' := by
  rw [final, h]

theorem final_error {x : EStateM ε σ α} {s s' : σ} {e : ε} (h : x s = .error e s') :
    final x s = s' := by
  rw [final, h]

/-- What a program throws. -/
def thrown (x : EStateM ε σ α) (s : σ) : Option ε :=
  match x s with
  | .ok _ _ => none
  | .error e _ => some e

/-- How a program that returns nothing ends. -/
def ending (e : Option ε) (s : σ) : EStateM.Result ε σ Unit :=
  match e with
  | none => .ok () s
  | some e => .error e s

theorem run_eq (x : EStateM ε σ Unit) (s : σ) : x s = ending (thrown x s) (final x s) := by
  unfold thrown final
  cases x s <;> rfl

theorem bind_ok {x : EStateM ε σ α} {f : α → EStateM ε σ β} {s s' : σ} {a : α}
    (h : x s = .ok a s') : (x >>= f) s = f a s' := by
  show EStateM.bind x f s = _
  rw [EStateM.bind, h]

theorem bind_error {x : EStateM ε σ α} {f : α → EStateM ε σ β} {s s' : σ} {e : ε}
    (h : x s = .error e s') : (x >>= f) s = .error e s' := by
  show EStateM.bind x f s = _
  rw [EStateM.bind, h]

/-- Goes on behind what `x` threw, and with it. -/
def attempt (x : EStateM ε σ Unit) : EStateM ε σ (Option ε) := fun s =>
  .ok (thrown x s) (final x s)

/-- `catch`: goes on with `handle` from where `x` threw. -/
def catching (x : EStateM ε σ α) (handle : ε → EStateM ε σ α) : EStateM ε σ α := fun s =>
  match x s with
  | .ok a s' => .ok a s'
  | .error e s' => handle e s'

theorem catching_ok {x : EStateM ε σ α} {handle : ε → EStateM ε σ α} {s s' : σ} {a : α}
    (h : x s = .ok a s') : catching x handle s = .ok a s' := by
  rw [catching, h]

theorem catching_error {x : EStateM ε σ α} {handle : ε → EStateM ε σ α} {s s' : σ} {e : ε}
    (h : x s = .error e s') : catching x handle s = handle e s' := by
  rw [catching, h]

/-- `x` leaves `f` of the state as it was, and throws only what `P` allows. -/
structure Tame (f : σ → γ) (P : ε → Prop) (x : EStateM ε σ α) : Prop where
  keeps : ∀ s, f (final x s) = f s
  throws : ∀ s e s', x s = .error e s' → P e

namespace Tame

variable {f : σ → γ} {P : ε → Prop}

theorem pure (a : α) : Tame f P (Pure.pure a : EStateM ε σ α) where
  keeps _ := rfl
  throws _ _ _ h := by cases h

theorem throw {e : ε} (he : P e) : Tame f P (MonadExcept.throw e : EStateM ε σ α) where
  keeps _ := rfl
  throws _ _ _ h := by
    cases h
    exact he

theorem modified {g : σ → σ} (hg : ∀ s, f (g s) = f s) :
    Tame f P (modify g : EStateM ε σ PUnit) where
  keeps := hg
  throws _ _ _ h := by cases h

theorem get : Tame f P (MonadState.get : EStateM ε σ σ) where
  keeps _ := rfl
  throws _ _ _ h := by cases h

theorem bind {x : EStateM ε σ α} {g : α → EStateM ε σ β} (hx : Tame f P x)
    (hg : ∀ a, Tame f P (g a)) : Tame f P (x >>= g) where
  keeps s := by
    have hkeeps := hx.keeps s
    cases h : x s with
    | ok a s' =>
      rw [final_ok h] at hkeeps
      show f (final (x >>= g) s) = f s
      rw [final, bind_ok h, ← final, (hg a).keeps, hkeeps]
    | error e s' =>
      rw [final_error h] at hkeeps
      rw [final_error (bind_error h), hkeeps]
  throws s e s'' he := by
    cases h : x s with
    | ok a s' =>
      rw [bind_ok h] at he
      exact (hg a).throws s' e s'' he
    | error e' s' =>
      rw [bind_error h] at he
      obtain ⟨rfl, -⟩ := EStateM.Result.error.inj he
      exact hx.throws s _ s' h

theorem catching {x : EStateM ε σ α} {handle : ε → EStateM ε σ α} {Q : ε → Prop}
    (hx : Tame f Q x) (hh : ∀ e, Q e → Tame f P (handle e)) : Tame f P (catching x handle) where
  keeps s := by
    have hkeeps := hx.keeps s
    cases h : x s with
    | ok a s' =>
      rw [final_ok h] at hkeeps
      rw [final_ok (catching_ok h), hkeeps]
    | error e s' =>
      rw [final_error h] at hkeeps
      rw [final, catching_error h, ← final, (hh e (hx.throws s e s' h)).keeps, hkeeps]
  throws s e s'' he := by
    cases h : x s with
    | ok a s' =>
      rw [catching_ok h] at he
      cases he
    | error e' s' =>
      rw [catching_error h] at he
      exact (hh e' (hx.throws s e' s' h)).throws s' e s'' he

/-- A program that throws nothing returns. -/
theorem returns {x : EStateM ε σ α} (h : Tame f (fun _ => False) x) (s : σ) :
    ∃ a s', x s = .ok a s' ∧ f s' = f s := by
  cases hx : x s with
  | ok a s' => exact ⟨a, s', rfl, by rw [← h.keeps s, final_ok hx]⟩
  | error e s' => exact absurd (h.throws s e s' hx) id

end Tame

end Throws
