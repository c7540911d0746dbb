import Jovian.Kernel.CommRegistry

/-!
# Jovian — the targets that comms point to

A comm points to its target, which is an element of the manager's map. A target that is registered
again keeps its place; one that is unregistered is erased, whoever points to it. Elara destroys the
comms that were closed first, but not those that are open.

* **`targets_live`** — in every run in which a target is unregistered only when no comm is left that
  points to it (`released`), what every comm points to is an element of the map, and a
  `comm_info_request` reads the names of such (`TargetsLive`).
-/

namespace Jovian.Comms

open Transition (System)

/-! ## The property -/

/-- **No comm's target is gone.** -/
structure TargetsLive (s : State) : Prop where
  live : ∀ a c, s.heap a = some c → ∃ name, s.targets name = some c.target
  info : ∀ id a c, s.comms id = some a → s.heap a = some c →
    ∃ name, s.targets name = some c.target ∧ s.commInfo "" id = some name

/-- No comm but those about to be destroyed points to a target that is unregistered. -/
def released (s : State) : Event → Bool
  | .unregisterTarget name =>
    s.allocated.all fun a =>
      a ∈ s.closedComms || (s.heap a).all fun c => s.targets name ≠ some c.target
  | _ => true

/-! ## The invariant -/

structure Pointed (m : Manager) : Prop where
  named : m.Named
  target : ∀ a c, m.heap a = some c → m.nodes c.target ≠ none
  allocated : ∀ a c, m.heap a = some c → a ∈ m.allocated

variable {m m' : Manager} {s : State} {a b target : Address} {c d : Comm} {id : Guid}

theorem Pointed.put (h : Pointed m) (htarget : m.nodes c.target ≠ none) : Pointed (m.put a c) := by
  refine ⟨h.named, fun b d hd => ?_, fun b d hd => ?_⟩
  all_goals
    replace hd : Function.update m.heap a (some c) b = some d := hd
    by_cases hb : b = a
  · subst hb
    rw [Function.update_self] at hd
    obtain rfl := Option.some.inj hd
    exact htarget
  · rw [Function.update_of_ne hb] at hd
    exact h.target b d hd
  · rw [hb]
    exact List.mem_cons_self
  · rw [Function.update_of_ne hb] at hd
    exact List.mem_cons_of_mem _ (h.allocated b d hd)

/-- Only the map of the comms changes. -/
theorem Pointed.congr (h : Pointed m) (hheap : m'.heap = m.heap) (hnodes : m'.nodes = m.nodes)
    (htargets : m'.targets = m.targets) (hallocated : m'.allocated = m.allocated) : Pointed m' := by
  refine ⟨h.named.congr htargets hnodes, ?_, ?_⟩
  · rw [hheap, hnodes]
    exact h.target
  · rw [hheap, hallocated]
    exact h.allocated

theorem Pointed.registerComm (h : Pointed m) : Pointed (m.registerComm target id a) := by
  obtain ⟨hheap, hnodes, htargets, hallocated, -⟩ := m.registerComm_frame target id a
  exact h.congr hheap hnodes htargets hallocated

theorem Pointed.unregisterComm (h : Pointed m) : Pointed (m.unregisterComm target id) := by
  obtain ⟨hheap, hnodes, htargets, hallocated, -⟩ := m.unregisterComm_frame target id
  exact h.congr hheap hnodes htargets hallocated

theorem Pointed.construct (h : Pointed m) (htarget : m.nodes target ≠ none)
    (movedFrom loose : Bool) : Pointed (m.construct a target id movedFrom loose) := by
  refine Pointed.registerComm (h.put ?_)
  exact htarget

theorem Pointed.moveConstruct (h : Pointed m) : Pointed (m.moveConstruct b a) := by
  unfold Manager.moveConstruct
  split
  · exact h
  · rename_i c hc
    have htarget := h.target a c hc
    refine Pointed.registerComm (Pointed.put (h.put ?_) ?_)
    · exact htarget
    · exact htarget

theorem Pointed.copyConstruct (h : Pointed m) : Pointed (m.copyConstruct b a id) := by
  unfold Manager.copyConstruct
  split
  · exact h
  · rename_i c hc
    exact h.construct (h.target a c hc) _ _

theorem Pointed.moveAssign (h : Pointed m) : Pointed (m.moveAssign a b) := by
  unfold Manager.moveAssign
  split
  · rename_i d c _ hc
    have htarget : (m.unregisterComm c.target d.id).nodes c.target ≠ none := by
      rw [(m.unregisterComm_frame c.target d.id).2.1]
      exact h.target b c hc
    refine Pointed.registerComm (Pointed.put (Pointed.put h.unregisterComm ?_) ?_)
    · exact htarget
    · exact htarget
  · exact h

theorem Pointed.copyAssign (h : Pointed m) : Pointed (m.copyAssign a b id) := by
  unfold Manager.copyAssign
  split
  · rename_i d c _ hc
    refine Pointed.registerComm (Pointed.put h.unregisterComm ?_)
    rw [(m.unregisterComm_frame c.target d.id).2.1]
    exact h.target b c hc
  · exact h

theorem Pointed.destroy (h : Pointed m) (a : Address) : Pointed (m.destroy a) := by
  obtain ⟨hother, hnone, hnodes, htargets, hallocated, -⟩ := destroy_frame m a
  have hback : ∀ b d, (m.destroy a).heap b = some d → m.heap b = some d := by
    intro b d hd
    by_cases hb : b = a
    · subst hb
      cases hnone.symm.trans hd
    · exact (hother b hb).symm.trans hd
  refine ⟨h.named.congr htargets hnodes, fun b d hd => ?_, fun b d hd => ?_⟩
  · rw [hnodes]
    exact h.target b d (hback b d hd)
  · rw [hallocated]
    exact h.allocated b d (hback b d hd)

theorem Pointed.foldl_destroy (h : Pointed m) (l : List Address) :
    Pointed (l.foldl Manager.destroy m) := by
  induction l generalizing m with
  | nil => exact h
  | cons a l ih => exact ih (h.destroy a)

theorem Pointed.forget (h : Pointed m) (id : Guid) : Pointed (m.forget id) := by
  have hback : ∀ b d, (m.forget id).heap b = some d →
      ∃ d', m.heap b = some d' ∧ d'.target = d.target := by
    intro b d hd
    unfold Manager.forget at hd
    split at hd
    · exact ⟨d, hd, rfl⟩
    · rename_i a ha
      replace hd : Function.update m.heap a _ b = some d := hd
      by_cases hb : b = a
      · subst hb
        rw [Function.update_self] at hd
        obtain ⟨d', hd', rfl⟩ := Option.map_eq_some_iff.mp hd
        exact ⟨d', hd', rfl⟩
      · rw [Function.update_of_ne hb] at hd
        exact ⟨d, hd, rfl⟩
  refine ⟨h.named, fun b d hd => ?_, fun b d hd => ?_⟩
  · obtain ⟨d', hd', htarget⟩ := hback b d hd
    rw [← htarget]
    exact h.target b d' hd'
  · obtain ⟨d', hd', -⟩ := hback b d hd
    exact h.allocated b d' hd'

/-! ## Targets that come and go -/

theorem Pointed.registerCommTarget (h : Pointed m) {name : String} {node : Address}
    (hfree : m.nodes node = none) : Pointed (m.registerCommTarget name node) := by
  obtain ⟨-, hheap, hallocated, -⟩ := m.registerCommTarget_frame name node
  have hkept : ∀ p, m.nodes p ≠ none → (m.registerCommTarget name node).nodes p ≠ none := by
    intro p hp
    unfold Manager.registerCommTarget
    split
    · exact hp
    · show Function.update m.nodes node (some name) p ≠ none
      rw [Function.update_of_ne]
      · exact hp
      · rintro rfl
        exact hp hfree
  refine ⟨h.named.register hfree, ?_, ?_⟩
  · rw [hheap]
    exact fun a c hc => hkept _ (h.target a c hc)
  · rw [hheap, hallocated]
    exact h.allocated

theorem Pointed.unregisterCommTarget (h : Pointed m) {name : String}
    (hfree : ∀ a c, m.heap a = some c → m.targets name ≠ some c.target) :
    Pointed (m.unregisterCommTarget name) := by
  obtain ⟨-, hheap, hallocated, -⟩ := m.unregisterCommTarget_frame name
  have hkept : ∀ p, m.targets name ≠ some p → m.nodes p ≠ none →
      (m.unregisterCommTarget name).nodes p ≠ none := by
    intro p hne hp
    unfold Manager.unregisterCommTarget
    split
    · rename_i node hnode
      show Function.update m.nodes node none p ≠ none
      rw [Function.update_of_ne]
      · exact hp
      · rintro rfl
        exact hne hnode
    · exact hp
  refine ⟨h.named.unregister name, ?_, ?_⟩
  · rw [hheap]
    exact fun a c hc => hkept _ (hfree a c hc) (h.target a c hc)
  · rw [hheap, hallocated]
    exact h.allocated

/-! ## The steps -/

theorem Pointed.keep (h : Pointed s.toManager) : Pointed (s.keep a).toManager := by
  unfold State.keep
  split
  · exact h
  · rename_i c hc
    have hput : Pointed (s.put a { c with handlers := some c.id }) := h.put (h.target a c hc)
    dsimp only
    split
    · exact hput
    · exact hput.destroy _

theorem Pointed.unregisterTarget (h : Pointed s.toManager) {name : String}
    (hok : released s (.unregisterTarget name) = true) :
    Pointed (s.unregisterTarget name).toManager := by
  obtain ⟨hheap, -, htargets, -⟩ := reapClosed_frame s
  refine Pointed.unregisterCommTarget (h.foldl_destroy s.closedComms) fun a c hc => ?_
  replace hc : s.reapClosed.heap a = some c := hc
  show s.reapClosed.targets name ≠ _
  rw [hheap] at hc
  split at hc
  · cases hc
  · rename_i hnotin
    have hone := List.all_eq_true.mp hok a (h.allocated a c hc)
    rw [hc] at hone
    rw [htargets]
    simpa [hnotin] using hone

theorem node_of_target (h : m.Named) {name : String} (htarget : m.targets name = some target) :
    m.nodes target ≠ none := by
  rw [(h name target).mp htarget]
  exact fun h => by cases h

theorem Pointed.step (h : Pointed s.toManager) (e : Event) (hok : released s e = true) :
    Pointed (step s e).toManager := by
  have hreaped : Pointed s.reapClosed.toManager := h.foldl_destroy s.closedComms
  cases e with
  | registerTarget name node =>
    show Pointed (s.registerTarget name node).toManager
    unfold State.registerTarget
    split
    · exact h
    · rename_i hfree
      refine hreaped.registerCommTarget ?_
      rw [(reapClosed_frame s).2.1]
      exact not_not.mp hfree
  | unregisterTarget name => exact h.unregisterTarget hok
  | newComm name id a movedFrom =>
    show Pointed (s.newComm name id a movedFrom).toManager
    unfold State.newComm
    dsimp only
    split
    · exact h
    · split
      · exact hreaped
      · rename_i target htarget
        exact Pointed.keep (hreaped.construct (node_of_target hreaped.named htarget) _ _)
  | list => exact hreaped
  | send id => exact h
  | close id =>
    show Pointed (s.close id).toManager
    unfold State.close
    dsimp only
    split
    · exact hreaped
    · exact hreaped.destroy _
  | commOpen name id n k movedFrom =>
    show Pointed (s.commOpen name id n k movedFrom).toManager
    unfold State.commOpen
    split
    · exact h
    · split
      · exact h
      · rename_i target htarget
        have hmade : Pointed (s.toManager.construct n target id movedFrom false) :=
          h.construct (node_of_target h.named htarget) movedFrom false
        exact Pointed.keep hmade.moveConstruct
  | commMsg id => exact h
  | commClose id =>
    show Pointed (s.commClose id).toManager
    unfold State.commClose State.onClose
    repeat' split
    all_goals exact h
  | commInfo targetName => exact h
  | returned =>
    show Pointed s.returned.toManager
    unfold State.returned
    split
    · exact h
    · exact h.destroy _
    · exact h.forget _
  | construct name id a movedFrom =>
    show Pointed (s.construct name id a movedFrom).toManager
    unfold State.construct
    split
    · rename_i target htarget _
      exact h.construct (node_of_target h.named htarget) _ _
    · exact h
  | moveConstruct b a =>
    show Pointed (if _ then _ else _ : State).toManager
    split
    · exact h.moveConstruct
    · exact h
  | copyConstruct b a id =>
    show Pointed (if _ then _ else _ : State).toManager
    split
    · exact h.copyConstruct
    · exact h
  | moveAssign a b =>
    show Pointed (if _ then _ else _ : State).toManager
    split
    · exact h.moveAssign
    · exact h
  | copyAssign a b id =>
    show Pointed (if _ then _ else _ : State).toManager
    split
    · exact h.copyAssign
    · exact h
  | destroy a =>
    show Pointed (if _ then _ else _ : State).toManager
    split
    · exact h.destroy a
    · exact h

/-! ## The headline -/

theorem pointed_init : Pointed {} :=
  ⟨inv_init.named, fun a c h => (by cases h), fun a c h => by cases h⟩

/-- **No comm's target is gone** in any state of a run in which only targets without comms are
unregistered. -/
theorem targets_live :
    ∀ s, (system.when fun s e => released s e = true).Reachable s → TargetsLive s := by
  intro s hs
  have hpointed : Pointed s.toManager :=
    System.invariant_ofFn (P := fun s => Pointed s.toManager) pointed_init
      (fun s e hs hok => hs.step e hok) hs
  have hlive : ∀ a c, s.heap a = some c →
      ∃ name, s.targets name = some c.target ∧ s.nodes c.target = some name := by
    intro a c hc
    obtain ⟨name, hname⟩ := Option.ne_none_iff_exists'.mp (hpointed.target a c hc)
    exact ⟨name, (hpointed.named name c.target).mpr hname, hname⟩
  refine ⟨fun a c hc => ?_, fun id a c ha hc => ?_⟩
  · obtain ⟨name, hname, -⟩ := hlive a c hc
    exact ⟨name, hname⟩
  · obtain ⟨name, hname, hnode⟩ := hlive a c hc
    refine ⟨name, hname, ?_⟩
    simp [Manager.commInfo, ha, hc, hnode]

/-- Two targets; the comm of the one that is unregistered has been closed. -/
def unregistered : List Event :=
  [.registerTarget "t" 0, .registerTarget "u" 1, .commOpen "t" 1 10 11 true, .registerTarget "t" 2,
    .returned, .newComm "u" 2 12 false, .commClose 1, .returned, .unregisterTarget "t"]

theorem targets_live_unregistered : TargetsLive (unregistered.foldl step {}) :=
  targets_live _ (System.reachable_of_allSteps (by decide +kernel))

/-- R unregisters a target while a comm of it is open: the comm's target is gone. -/
theorem target_of_open_comm_gone : ¬ ∀ s, system.Reachable s → TargetsLive s := by
  intro h
  let es : List Event := [.registerTarget "t" 0, .commOpen "t" 1 10 11 true, .returned,
    .unregisterTarget "t"]
  have hreach : system.Reachable (es.foldl step {}) := System.reachable_foldl _ _ _
  obtain ⟨name, hname, hinfo⟩ := (h _ hreach).info 1 11
    { id := 1, target := 0, movedFrom := false, handlers := some 1 } (by decide +kernel)
    (by decide +kernel)
  have hnone : (es.foldl step {}).commInfo "" 1 = none := by decide +kernel
  cases hnone.symm.trans hinfo

end Jovian.Comms
