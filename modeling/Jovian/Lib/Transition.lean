import Mathlib.Data.List.Induction

/-!
# Transition — labelled transition systems, runs and invariants

A `System` is a set of initial states and a labelled step relation. This library
carries the induction every safety argument needs, once:

* **`System.invariant`** — what holds initially and is kept by every step from a
  reachable state holds of every reachable state.
* **`System.when`** — the same system, taking only the steps that meet a condition on
  the state *before* the step. "In every run whose steps all meet `C`" is reachability
  in `M.when C`; two conditions are one (`reachable_when_when`).
* **`System.Run`** — a run with its labels, for statements about what happens *between*
  two states; `Run.invariant` is its induction rule.
* **`System.ofFn`** — a deterministic machine; the folds of its event lists are its runs.
  `invariant_ofFn` is its induction rule, `reachable_of_allSteps` finds by evaluation
  that a list of events meets a condition, and `forall_prefix_iff` says when a condition is exact.
* **`System.Simulation`** — an abstraction map under which every step is a step of the
  abstract system or leaves the abstract state alone; it carries reachability.
-/

namespace Transition

/-- A labelled transition system over states `σ` and labels `ε`. -/
structure System (σ ε : Type*) where
  init : σ → Prop
  step : σ → ε → σ → Prop

namespace System

variable {σ ε τ δ : Type*}

/-- The states a run from an initial state can be in. -/
inductive Reachable (M : System σ ε) : σ → Prop where
  | init {s : σ} (h : M.init s) : Reachable M s
  | step {s s' : σ} {e : ε} (h : Reachable M s) (hstep : M.step s e s') : Reachable M s'

/-- A run from `s`, with its labels in order, and the state it ends in. -/
inductive Run (M : System σ ε) (s : σ) : List ε → σ → Prop where
  | nil : Run M s [] s
  | snoc {es : List ε} {e : ε} {s' s'' : σ} (h : Run M s es s') (hstep : M.step s' e s'') :
      Run M s (es ++ [e]) s''

/-! ## Invariants -/

/-- **Invariant induction.** The step may use that its source is reachable. -/
theorem invariant {M : System σ ε} {P : σ → Prop} (hinit : ∀ s, M.init s → P s)
    (hstep : ∀ s e s', M.Reachable s → P s → M.step s e s' → P s') :
    ∀ s, M.Reachable s → P s := by
  intro s hs
  induction hs with
  | init h => exact hinit _ h
  | step h hs ih => exact hstep _ _ _ h ih hs

/-- **Run induction.** What a step keeps, a run keeps. -/
theorem Run.invariant {M : System σ ε} {P : σ → Prop} {s s' : σ} {es : List ε}
    (hrun : M.Run s es s') (hs : P s)
    (hstep : ∀ t e t', P t → M.step t e t' → P t') : P s' := by
  induction hrun with
  | nil => exact hs
  | snoc _ h ih => exact hstep _ _ _ ih h

theorem Run.reachable {M : System σ ε} {s s' : σ} {es : List ε} (hrun : M.Run s es s')
    (hs : M.Reachable s) : M.Reachable s' := by
  induction hrun with
  | nil => exact hs
  | snoc _ h ih => exact .step ih h

theorem Run.trans {M : System σ ε} {s s' s'' : σ} {es es' : List ε} (h1 : M.Run s es s')
    (h2 : M.Run s' es' s'') : M.Run s (es ++ es') s'' := by
  induction h2 with
  | nil => simpa using h1
  | snoc _ h ih =>
    rw [← List.append_assoc]
    exact .snoc ih h

/-! ## Runs whose steps meet a condition -/

/-- The runs of `M` all of whose steps meet `C` in the state they start from. -/
def when (M : System σ ε) (C : σ → ε → Prop) : System σ ε where
  init := M.init
  step s e s' := C s e ∧ M.step s e s'

/-- A conditioned run is a run. -/
theorem Reachable.of_when {M : System σ ε} {C : σ → ε → Prop} {s : σ}
    (h : (M.when C).Reachable s) : M.Reachable s := by
  induction h with
  | init h => exact .init h
  | step _ hs ih => exact .step ih hs.2

/-- One condition after another. -/
theorem reachable_when_when {M : System σ ε} {C D : σ → ε → Prop} {s : σ} :
    ((M.when C).when D).Reachable s ↔ (M.when fun s e => C s e ∧ D s e).Reachable s := by
  constructor
  · intro h
    induction h with
    | init h => exact .init h
    | step _ hs ih => exact .step ih ⟨⟨hs.2.1, hs.1⟩, hs.2.2⟩
  · intro h
    induction h with
    | init h => exact .init h
    | step _ hs ih => exact .step ih ⟨hs.1.2, hs.1.1, hs.2⟩

/-! ## Deterministic machines -/

/-- The system of a machine that answers every event. -/
def ofFn (s₀ : σ) (f : σ → ε → σ) : System σ ε where
  init s := s = s₀
  step s e s' := s' = f s e

/-- **Invariant induction of a machine**, over the runs whose steps meet `C`. -/
theorem invariant_ofFn {s₀ : σ} {f : σ → ε → σ} {C : σ → ε → Prop} {P : σ → Prop} (hinit : P s₀)
    (hstep : ∀ s e, P s → C s e → P (f s e)) {s : σ} (h : ((ofFn s₀ f).when C).Reachable s) :
    P s := by
  refine invariant ?_ ?_ s h
  · rintro _ rfl
    exact hinit
  · rintro s e _ - hs ⟨hC, rfl⟩
    exact hstep s e hs hC

theorem reachable_foldl (s₀ : σ) (f : σ → ε → σ) (es : List ε) :
    (ofFn s₀ f).Reachable (es.foldl f s₀) := by
  induction es using List.reverseRecOn with
  | nil => exact .init rfl
  | append_singleton es e ih =>
    rw [List.foldl_append]
    exact .step ih rfl

theorem run_foldl (s₀ s : σ) (f : σ → ε → σ) (es : List ε) :
    (ofFn s₀ f).Run s es (es.foldl f s) := by
  induction es using List.reverseRecOn with
  | nil => exact .nil
  | append_singleton es e ih =>
    rw [List.foldl_append]
    exact .snoc ih rfl

/-- A fold whose every event meets `C` where it occurs is a conditioned run. -/
theorem reachable_when_foldl {s₀ : σ} {f : σ → ε → σ} {C : σ → ε → Prop} {es : List ε}
    (hes : ∀ pre e, pre ++ [e] <+: es → C (pre.foldl f s₀) e) :
    ((ofFn s₀ f).when C).Reachable (es.foldl f s₀) := by
  induction es using List.reverseRecOn with
  | nil => exact .init rfl
  | append_singleton es e ih =>
    rw [List.foldl_append]
    refine .step (ih fun pre e' h => ?_) ⟨hes es e (List.prefix_refl _), rfl⟩
    exact hes pre e' (h.trans (List.prefix_append _ _))

/-- Whether every event of a list meets `C` where it occurs. -/
def allSteps (f : σ → ε → σ) (C : σ → ε → Bool) : σ → List ε → Bool
  | _, [] => true
  | s, e :: es => C s e && allSteps f C (f s e) es

theorem forall_of_allSteps {f : σ → ε → σ} {C : σ → ε → Bool} {s : σ} {es : List ε}
    (h : allSteps f C s es = true) :
    ∀ pre e, pre ++ [e] <+: es → C (pre.foldl f s) e = true := by
  induction es generalizing s with
  | nil =>
    intro pre e hpre
    simp at hpre
  | cons d es ih =>
    obtain ⟨hd, hes⟩ := Bool.and_eq_true_iff.mp h
    rintro (_ | ⟨d', pre⟩) e hpre
    · obtain rfl : e = d := (List.cons_prefix_cons.mp hpre).1
      exact hd
    · obtain ⟨rfl, hrest⟩ := List.cons_prefix_cons.mp hpre
      exact ih hes pre e hrest

theorem reachable_of_allSteps {s₀ : σ} {f : σ → ε → σ} {C : σ → ε → Bool} {es : List ε}
    (h : allSteps f C s₀ es = true) :
    ((ofFn s₀ f).when fun s e => C s e = true).Reachable (es.foldl f s₀) :=
  reachable_when_foldl (forall_of_allSteps h)

/-- **The exact condition.** Where every event that does not meet `C` breaks `P` at once, and every
other keeps what `P` follows from, `P` holds all along exactly when each event meets `C`. -/
theorem forall_prefix_iff {s₀ : σ} {f : σ → ε → σ} {P Q : σ → Prop} {C : σ → ε → Prop} (hinit : Q s₀)
    (hQ : ∀ s, Q s → P s) (hkeep : ∀ s e, Q s → C s e → Q (f s e))
    (hbreak : ∀ s e, Q s → ¬ C s e → ¬ P (f s e)) (es : List ε) :
    (∀ pre, pre <+: es → P (pre.foldl f s₀)) ↔
      ∀ pre e, pre ++ [e] <+: es → C (pre.foldl f s₀) e := by
  have hfold : ∀ (pre : List ε) (e : ε), (pre ++ [e]).foldl f s₀ = f (pre.foldl f s₀) e := by
    intro pre e
    rw [List.foldl_append, List.foldl_cons, List.foldl_nil]
  constructor
  · intro h
    have hall : ∀ pre, pre <+: es → Q (pre.foldl f s₀) := by
      intro pre
      induction pre using List.reverseRecOn with
      | nil => exact fun _ => hinit
      | append_singleton pre e ih =>
        intro hpre
        have hQs := ih ((List.prefix_append _ _).trans hpre)
        rw [hfold]
        refine hkeep _ e hQs ?_
        by_contra hC
        exact hbreak _ e hQs hC (hfold pre e ▸ h _ hpre)
    intro pre e hpre
    by_contra hC
    exact hbreak _ e (hall pre ((List.prefix_append _ _).trans hpre)) hC (hfold pre e ▸ h _ hpre)
  · intro h pre
    refine fun hpre => hQ _ ?_
    induction pre using List.reverseRecOn with
    | nil => exact hinit
    | append_singleton pre e ih =>
      rw [hfold]
      exact hkeep _ e (ih ((List.prefix_append _ _).trans hpre)) (h pre e hpre)

/-! ## Simulation -/

/-- `f` maps the steps of `M` to steps of `N`; `lab` gives the abstract label, `none`
for a step the abstract system does not see. -/
structure Simulation (M : System σ ε) (N : System τ δ) (f : σ → τ) (lab : σ → ε → Option δ) :
    Prop where
  init : ∀ s, M.init s → N.init (f s)
  silent : ∀ s e s', M.Reachable s → M.step s e s' → lab s e = none → f s' = f s
  visible : ∀ s e s' d, M.Reachable s → M.step s e s' → lab s e = some d → N.step (f s) d (f s')

/-- **Refinement.** Under a simulation every reachable state maps to a reachable one. -/
theorem Simulation.reachable {M : System σ ε} {N : System τ δ} {f : σ → τ}
    {lab : σ → ε → Option δ} (h : Simulation M N f lab) :
    ∀ s, M.Reachable s → N.Reachable (f s) := by
  apply invariant
  · exact fun s hs => .init (h.init s hs)
  · intro s e s' hs ih hstep
    cases hl : lab s e with
    | none => exact h.silent s e s' hs hstep hl ▸ ih
    | some d => exact .step ih (h.visible s e s' d hs hstep hl)

/-- Under a simulation a run from a reachable state maps to a run. -/
theorem Simulation.run {M : System σ ε} {N : System τ δ} {f : σ → τ}
    {lab : σ → ε → Option δ} (h : Simulation M N f lab) {s s' : σ} {es : List ε}
    (hs : M.Reachable s) (hrun : M.Run s es s') : ∃ ds, N.Run (f s) ds (f s') := by
  induction hrun with
  | nil => exact ⟨[], .nil⟩
  | @snoc es e t t' hrun hstep ih =>
    obtain ⟨ds, hds⟩ := ih
    have ht := hrun.reachable hs
    cases hl : lab t e with
    | none => exact ⟨ds, h.silent t e t' ht hstep hl ▸ hds⟩
    | some d => exact ⟨ds ++ [d], .snoc hds (h.visible t e t' d ht hstep hl)⟩

end System

end Transition
