import Jovian.Kernel.CommR
import Mathlib.Data.List.Nodup

/-!
# Jovian — the map of comms is right

The map and the comms are two views of one thing, which every operation has to keep in step: an id
that two comms have is an entry that one of them takes out under the other. This comes about when a
`comm_open` reuses the id of a comm that is open (the old one is destroyed once the new one is in the
map), when a comm that was closed is destroyed after its id has been opened again, when one that was
moved from is assigned to, and, the other way round, when a comm that is destroyed takes itself for
moved from: `Comm(const CommTarget*, Guid)` does not set `m_movedFrom`.

* **`registry_consistent`** — in every run in which no step does this, and none goes through a target
  that is no more (`orderly`), every entry is a comm with that id, every open comm is the entry of its
  id, and what R is told is open is in the map (`Consistent`).
-/

namespace Jovian.Comms

open Transition (System)

/-! ## The property -/

/-- **The map is right.** -/
structure Consistent (s : State) : Prop where
  entries : ∀ id a, s.comms id = some a → ∃ c, s.heap a = some c ∧ c.id = id
  found : ∀ a c, s.heap a = some c → c.isOpen = true → s.comms c.id = some a
  listed : ∀ id a, s.openComms id = some a → s.comms id = some a
  /-- A message for an open comm reaches it. -/
  reached : ∀ a c, s.heap a = some c → c.isOpen = true → s.recipient c.id = some a

/-! ## The condition -/

namespace Manager

/-- Its target is there. -/
def targeted (m : Manager) (a : Address) : Bool := (m.heap a).all fun c => m.nodes c.target ≠ none

/-- No other comm is the entry of its id. -/
def alone (m : Manager) (a : Address) : Bool :=
  (m.heap a).all fun c => m.comms c.id = none ∨ m.comms c.id = some a

/-- It takes out its own entry, or none. -/
def destructible (m : Manager) (a : Address) : Bool :=
  (m.heap a).all fun c => if c.movedFrom then !c.isOpen else m.targeted a && m.alone a

end Manager

/-- The comms that wait to be destroyed can be. -/
def State.reapable (s : State) : Bool := s.closedComms.all s.destructible

/-- What a step does to the map it does to its own comm's entry, through a target that is there. -/
def orderly (s : State) : Event → Bool
  | .registerTarget _ _ | .unregisterTarget _ | .newComm _ _ _ _ | .list => s.reapable
  | .close id => s.reapable && (s.openComms id).all s.destructible
  | .send id => (s.openComms id).all s.targeted
  | .commOpen name id _ _ _ | .construct name id _ _ => s.targets name = none ∨ s.comms id = none
  | .commInfo _ => s.allocated.all fun a => (s.heap a).all fun c => !c.isOpen || s.targeted a
  | .moveConstruct _ a => s.targeted a && s.alone a
  | .copyConstruct _ a _ => s.targeted a
  | .moveAssign a b =>
    a ≠ b && (s.alone a || (s.heap a).all fun d => s.comms d.id = some b) && s.targeted b && s.alone b
  | .copyAssign a b _ => s.alone a && s.targeted b
  | .destroy a => s.destructible a
  | .commMsg _ | .commClose _ | .returned => true

/-! ## The map and the comms -/

/-- The entries are the comms that are open. -/
def Registered (m : Manager) : Prop :=
  ∀ id a, m.comms id = some a ↔ ∃ c, m.heap a = some c ∧ c.id = id ∧ c.isOpen = true

variable {m m' : Manager} {a b target : Address} {c d : Comm} {id : Guid}

/-- No open comm is at `a`. -/
def Manager.Shut (m : Manager) (a : Address) : Prop := ∀ c, m.heap a = some c → c.isOpen = false

/-- A comm that may have had the entry of its id has it no longer. -/
theorem Registered.drop (h : Registered m) (hc : m.heap a = some c)
    (halone : m.comms c.id = none ∨ m.comms c.id = some a)
    (hcomms : m'.comms = Function.update m.comms c.id none)
    (hheap : ∀ b, b ≠ a → m'.heap b = m.heap b) (hshut : m'.Shut a) : Registered m' := by
  intro id b
  rw [hcomms]
  by_cases hb : b = a
  · subst hb
    refine iff_of_false ?_ ?_
    · by_cases hid : id = c.id
      · subst hid
        simp
      · rw [Function.update_of_ne hid, h]
        rintro ⟨c', hc', rfl, -⟩
        exact hid (congrArg Comm.id (Option.some.inj (hc'.symm.trans hc)))
    · rintro ⟨c', hc', -, hopen⟩
      exact absurd ((hshut c' hc').symm.trans hopen) Bool.false_ne_true
  · rw [hheap b hb, ← h]
    by_cases hid : id = c.id
    · subst hid
      -- no other comm was the entry
      have hne : m.comms c.id ≠ some b := by
        rcases halone with hnone | hsome
        · rw [hnone]
          exact fun h => by cases h
        · rw [hsome]
          exact fun h => hb (Option.some.inj h).symm
      simpa using hne
    · rw [Function.update_of_ne hid]

/-- An id that has no entry gets one. -/
theorem Registered.add (h : Registered m) (hnone : m.comms c.id = none) (hshut : m.Shut a)
    (hopen : c.isOpen = true) (hcomms : m'.comms = Function.update m.comms c.id (some a))
    (hheap : m'.heap = Function.update m.heap a (some c)) : Registered m' := by
  intro id b
  rw [hcomms, hheap]
  by_cases hb : b = a
  · subst hb
    rw [Function.update_self]
    by_cases hid : id = c.id
    · subst hid
      simp [hopen]
    · rw [Function.update_of_ne hid, h]
      refine iff_of_false ?_ ?_
      · rintro ⟨c', hc', -, hopen'⟩
        exact absurd ((hshut c' hc').symm.trans hopen') Bool.false_ne_true
      · rintro ⟨c', hc', rfl, -⟩
        exact hid (congrArg Comm.id (Option.some.inj hc').symm)
  · rw [Function.update_of_ne hb, ← h]
    by_cases hid : id = c.id
    · subst hid
      rw [Function.update_self, hnone]
      exact iff_of_false (fun h => hb (Option.some.inj h).symm) fun h => by cases h
    · rw [Function.update_of_ne hid]

/-- What is not open changes. -/
theorem Registered.aside (h : Registered m) (hshut : m.Shut a) (hshut' : m'.Shut a)
    (hcomms : m'.comms = m.comms) (hheap : ∀ b, b ≠ a → m'.heap b = m.heap b) : Registered m' := by
  intro id b
  rw [hcomms, h]
  by_cases hb : b = a
  · subst hb
    refine iff_of_false ?_ ?_
    · rintro ⟨c, hc, -, hopen⟩
      exact absurd ((hshut c hc).symm.trans hopen) Bool.false_ne_true
    · rintro ⟨c, hc, -, hopen⟩
      exact absurd ((hshut' c hc).symm.trans hopen) Bool.false_ne_true
  · rw [hheap b hb]

/-- A comm's entry goes over to another one. -/
theorem Registered.move (h : Registered m) (hc : m.heap a = some c) (hne : a ≠ b)
    (halone : m.comms c.id = none ∨ m.comms c.id = some a) (hb : m.Shut b)
    (hd : d.id = c.id) (hopen : d.isOpen = true)
    (hcomms : m'.comms = Function.update m.comms c.id (some b))
    (hheap : m'.heap = Function.update (Function.update m.heap a (some c.husk)) b (some d)) :
    Registered m' := by
  let dropped : Manager := { m with
    comms := Function.update m.comms c.id none
    heap := Function.update m.heap a (some c.husk) }
  have hdropped : Registered dropped := by
    refine h.drop hc halone rfl (fun b hb => Function.update_of_ne hb _ _) fun c' hc' => ?_
    obtain rfl : c.husk = c' := by simpa [dropped] using hc'
    rfl
  have hshut : dropped.Shut b := by
    intro c' hc'
    refine hb c' ?_
    rw [← hc']
    exact (Function.update_of_ne hne.symm _ _).symm
  refine hdropped.add (c := d) ?_ hshut hopen ?_ hheap
  · rw [hd]
    exact Function.update_self _ _ _
  · rw [hcomms, hd]
    exact (Function.update_idem _ _ _).symm

theorem Registered.shut_of_none (h : Registered m) (hc : m.heap a = some c)
    (hnone : m.comms c.id ≠ some a) : m.Shut a := by
  intro c' hc'
  obtain rfl : c = c' := Option.some.inj (hc.symm.trans hc')
  by_contra hopen
  exact hnone ((h c.id a).mpr ⟨c, hc, rfl, eq_true_of_ne_false hopen⟩)

/-! ## What the comms do -/

namespace Manager

theorem registerComm_comms (h : m.nodes target ≠ none) (id : Guid) (a : Address) :
    (m.registerComm target id a).comms = Function.update m.comms id (some a) := by
  rw [registerComm, if_neg h]

theorem registerComm_frame (m : Manager) (target : Address) (id : Guid) (a : Address) :
    (m.registerComm target id a).heap = m.heap ∧ (m.registerComm target id a).nodes = m.nodes ∧
      (m.registerComm target id a).targets = m.targets ∧
      (m.registerComm target id a).allocated = m.allocated ∧
      (m.registerComm target id a).used = m.used := by
  unfold registerComm
  split <;> exact ⟨rfl, rfl, rfl, rfl, rfl⟩

theorem unregisterComm_comms (h : m.nodes target ≠ none) (id : Guid) :
    (m.unregisterComm target id).comms = Function.update m.comms id none := by
  rw [unregisterComm, if_neg h]

theorem unregisterComm_frame (m : Manager) (target : Address) (id : Guid) :
    (m.unregisterComm target id).heap = m.heap ∧ (m.unregisterComm target id).nodes = m.nodes ∧
      (m.unregisterComm target id).targets = m.targets ∧
      (m.unregisterComm target id).allocated = m.allocated ∧
      (m.unregisterComm target id).used = m.used := by
  unfold unregisterComm
  split <;> exact ⟨rfl, rfl, rfl, rfl, rfl⟩

end Manager

theorem Registered.construct (h : Registered m) (ha : m.heap a = none)
    (htarget : m.nodes target ≠ none) (hnone : m.comms id = none) (movedFrom loose : Bool) :
    Registered (m.construct a target id movedFrom loose) := by
  refine h.add (a := a) (c := { id, target, movedFrom, loose }) hnone ?_ rfl ?_ ?_
  · intro c hc
    cases ha.symm.trans hc
  · refine (Manager.registerComm_comms ?_ _ _).trans rfl
    exact htarget
  · exact (Manager.registerComm_frame _ _ _ _).1

theorem Registered.moveConstruct (h : Registered m) (hc : m.heap a = some c)
    (hb : m.heap b = none) (htarget : m.nodes c.target ≠ none)
    (halone : m.comms c.id = none ∨ m.comms c.id = some a) : Registered (m.moveConstruct b a) := by
  have hne : a ≠ b := by
    rintro rfl
    cases hb.symm.trans hc
  rw [Manager.moveConstruct, hc]
  refine h.move (d := { c with movedFrom := false, isOpen := true }) hc hne halone ?_ rfl rfl ?_ ?_
  · intro c' hc'
    cases hb.symm.trans hc'
  · refine (Manager.registerComm_comms ?_ _ _).trans rfl
    exact htarget
  · exact (Manager.registerComm_frame _ _ _ _).1

theorem moveAssign_frame (hd : m.heap a = some d) (hc : m.heap b = some c) :
    (m.moveAssign a b).heap = Function.update (Function.update m.heap a
        (some { c with movedFrom := false, loose := d.loose, isOpen := true })) b (some c.husk) ∧
      (m.moveAssign a b).nodes = m.nodes ∧ (m.moveAssign a b).targets = m.targets ∧
      (m.moveAssign a b).used = c.id :: c.id :: m.used ∧
      (m.nodes c.target ≠ none → (m.moveAssign a b).comms =
        Function.update (Function.update m.comms d.id none) c.id (some a)) := by
  obtain ⟨hheap, hnodes, htargets, -, hused⟩ := m.unregisterComm_frame c.target d.id
  rw [Manager.moveAssign, hd, hc]
  dsimp only
  obtain ⟨hheap', hnodes', htargets', -, hused'⟩ := Manager.registerComm_frame
    (((m.unregisterComm c.target d.id).put a
      { c with movedFrom := false, loose := d.loose, isOpen := true }).put b c.husk) c.target c.id a
  rw [hheap', hnodes', htargets', hused']
  refine ⟨?_, hnodes, htargets, ?_, fun htarget => ?_⟩
  · rw [← hheap]
    rfl
  · rw [← hused]
    rfl
  · rw [← Manager.unregisterComm_comms htarget]
    refine Manager.registerComm_comms ?_ _ _
    rw [← hnodes] at htarget
    exact htarget

theorem Registered.moveAssign (h : Registered m) (hd : m.heap a = some d) (hc : m.heap b = some c)
    (hne : a ≠ b) (htarget : m.nodes c.target ≠ none)
    (haloned : (m.comms d.id = none ∨ m.comms d.id = some a) ∨ m.comms d.id = some b)
    (halonec : m.comms c.id = none ∨ m.comms c.id = some b) : Registered (m.moveAssign a b) := by
  obtain ⟨hheap, -, -, -, hcomms⟩ := moveAssign_frame hd hc
  have hswap : ∀ x : Comm, Function.update (Function.update m.heap a (some x)) b (some c.husk) =
      Function.update (Function.update m.heap b (some c.husk)) a (some x) :=
    fun x => Function.update_comm hne _ _ _
  rw [hswap] at hheap
  rcases haloned with haloned | hother
  · let dropped : Manager := { m with
      comms := Function.update m.comms d.id none
      heap := Function.update m.heap a (some d.husk) }
    have hshut : dropped.Shut a := by
      intro c' hc'
      obtain rfl : d.husk = c' := by simpa [dropped] using hc'
      rfl
    have hdropped : Registered dropped :=
      h.drop hd haloned rfl (fun b hb => Function.update_of_ne hb _ _) hshut
    refine hdropped.move (a := b) (b := a) (c := c)
      (d := { c with movedFrom := false, loose := d.loose, isOpen := true }) ?_ hne.symm ?_ hshut rfl
      rfl (hcomms htarget) ?_
    · exact (Function.update_of_ne hne.symm _ _).trans hc
    · -- the entry of the comm that is moved is not the one that was taken out
      by_cases hid : c.id = d.id
      · left
        rw [hid]
        exact Function.update_self _ _ _
      · have hsame : dropped.comms c.id = m.comms c.id := Function.update_of_ne hid _ _
        rw [hsame]
        exact halonec
    · rw [hheap]
      show _ = Function.update (Function.update (Function.update m.heap a _) b _) a _
      rw [hswap, Function.update_idem]
  · -- the entry that is taken out is the one that is put in again
    obtain ⟨c', hc', hid, -⟩ := (h d.id b).mp hother
    obtain rfl : c = c' := Option.some.inj (hc.symm.trans hc')
    have hshut : m.Shut a := by
      refine h.shut_of_none hd ?_
      rw [hother]
      exact fun h => hne (Option.some.inj h).symm
    refine h.move (d := { c with movedFrom := false, loose := d.loose, isOpen := true }) hc hne.symm
      halonec hshut rfl rfl ?_ hheap
    rw [hcomms htarget, hid, Function.update_idem]

theorem Registered.copyAssign (h : Registered m) (hd : m.heap a = some d) (hc : m.heap b = some c)
    (htarget : m.nodes c.target ≠ none)
    (halone : m.comms d.id = none ∨ m.comms d.id = some a) (hid : m.comms id = none) :
    Registered (m.copyAssign a b id) := by
  let dropped : Manager := { m with
    comms := Function.update m.comms d.id none
    heap := Function.update m.heap a (some d.husk) }
  have hshut : dropped.Shut a := by
    intro c' hc'
    obtain rfl : d.husk = c' := by simpa [dropped] using hc'
    rfl
  have hdropped : Registered dropped :=
    h.drop hd halone rfl (fun b hb => Function.update_of_ne hb _ _) hshut
  have hunregister := Manager.unregisterComm_frame m c.target d.id
  rw [Manager.copyAssign, hd, hc]
  refine hdropped.add (a := a)
    (c := { d with id, target := c.target, movedFrom := false, isOpen := true }) ?_ hshut rfl ?_ ?_
  · show Function.update m.comms d.id none id = none
    by_cases hne : id = d.id
    · rw [hne, Function.update_self]
    · rw [Function.update_of_ne hne, hid]
  · refine (Manager.registerComm_comms ?_ _ _).trans ?_
    · show (m.unregisterComm c.target d.id).nodes c.target ≠ none
      rw [hunregister.2.1]
      exact htarget
    · show Function.update (m.unregisterComm c.target d.id).comms id (some a) = _
      rw [Manager.unregisterComm_comms htarget]
  · rw [(Manager.registerComm_frame _ _ _ _).1]
    show Function.update (m.unregisterComm c.target d.id).heap a _ = _
    rw [hunregister.1]
    exact (Function.update_idem _ _ _).symm

theorem destroy_eq (hc : m.heap a = some c) : m.destroy a =
    { (if c.movedFrom then m else m.unregisterComm c.target c.id) with
      heap := Function.update m.heap a none } := by
  have hheap : (if c.movedFrom then m else m.unregisterComm c.target c.id).heap = m.heap := by
    split
    · rfl
    · exact (Manager.unregisterComm_frame _ _ _).1
  rw [Manager.destroy, hc]
  dsimp only
  rw [hheap]

/-- What `destructible` says of a comm. -/
theorem destructible_iff (hc : m.heap a = some c) : m.destructible a = true ↔
    (c.movedFrom = true ∧ c.isOpen = false) ∨
      (c.movedFrom = false ∧ m.nodes c.target ≠ none ∧
        (m.comms c.id = none ∨ m.comms c.id = some a)) := by
  simp only [Manager.destructible, Manager.targeted, Manager.alone, hc, Option.all_some]
  cases c.movedFrom <;> simp

theorem destroy_frame (m : Manager) (a : Address) :
    (∀ b, b ≠ a → (m.destroy a).heap b = m.heap b) ∧ (m.destroy a).heap a = none ∧
      (m.destroy a).nodes = m.nodes ∧ (m.destroy a).targets = m.targets ∧
      (m.destroy a).allocated = m.allocated ∧ (m.destroy a).used = m.used := by
  cases hc : m.heap a with
  | none =>
    rw [Manager.destroy, hc]
    exact ⟨fun _ _ => rfl, hc, rfl, rfl, rfl, rfl⟩
  | some c =>
    obtain ⟨-, hnodes, htargets, hallocated, hused⟩ := m.unregisterComm_frame c.target c.id
    rw [destroy_eq hc]
    refine ⟨fun b hb => Function.update_of_ne hb _ _, Function.update_self _ _ _, ?_⟩
    dsimp only
    split
    · exact ⟨rfl, rfl, rfl, rfl⟩
    · exact ⟨hnodes, htargets, hallocated, hused⟩

theorem Registered.destroy (h : Registered m) (hc : m.heap a = some c)
    (hok : m.destructible a = true) : Registered (m.destroy a) := by
  obtain ⟨hheap, hnone, -⟩ := destroy_frame m a
  have hshut : (m.destroy a).Shut a := fun c' hc' => by cases hnone.symm.trans hc'
  rcases (destructible_iff hc).mp hok with ⟨hmoved, hclosed⟩ | ⟨hkept, htarget, halone⟩
  · refine h.aside (fun c' hc' => ?_) hshut ?_ hheap
    · obtain rfl : c = c' := Option.some.inj (hc.symm.trans hc')
      exact hclosed
    · rw [destroy_eq hc, if_pos hmoved]
  · refine h.drop hc halone ?_ hheap hshut
    rw [destroy_eq hc, hkept]
    exact Manager.unregisterComm_comms htarget c.id

/-- A closed comm that is destroyed leaves the map as it is. -/
theorem Registered.comms_destroy (h : Registered m) (hc : m.heap a = some c)
    (hclosed : c.isOpen = false) (hok : m.destructible a = true) :
    (m.destroy a).comms = m.comms := by
  rw [destroy_eq hc]
  rcases (destructible_iff hc).mp hok with ⟨hmoved, -⟩ | ⟨hkept, htarget, halone⟩
  · rw [if_pos hmoved]
  · have hnone : m.comms c.id = none := by
      refine halone.resolve_right fun hsome => ?_
      obtain ⟨c', hc', -, hopen⟩ := (h c.id a).mp hsome
      obtain rfl : c = c' := Option.some.inj (hc.symm.trans hc')
      exact Bool.false_ne_true (hclosed.symm.trans hopen)
    rw [hkept]
    refine (Manager.unregisterComm_comms htarget c.id).trans ?_
    rw [← hnone, Function.update_eq_self]

theorem Registered.forget (h : Registered m) (id : Guid) : Registered (m.forget id) := by
  cases hid : m.comms id with
  | none =>
    have hsame : m.forget id = m := by
      rw [Manager.forget, hid]
      show { m with comms := Function.update m.comms id none } = m
      rw [← hid, Function.update_eq_self]
    rw [hsame]
    exact h
  | some a =>
    obtain ⟨c, hc, rfl, -⟩ := (h id a).mp hid
    have hheap : (m.forget c.id).heap =
        Function.update m.heap a (some { c with isOpen := false }) := by
      rw [Manager.forget, hid]
      dsimp only
      rw [hc]
      rfl
    refine h.drop hc (.inr hid) rfl (fun b hb => ?_) fun c' hc' => ?_
    · rw [hheap, Function.update_of_ne hb]
    · rw [hheap, Function.update_self] at hc'
      cases hc'
      rfl

/-! ## Comms that are destroyed together -/

theorem foldl_destroy_frame (l : List Address) (m : Manager) :
    (∀ b, (l.foldl Manager.destroy m).heap b = if b ∈ l then none else m.heap b) ∧
      (l.foldl Manager.destroy m).nodes = m.nodes ∧
      (l.foldl Manager.destroy m).targets = m.targets ∧
      (l.foldl Manager.destroy m).allocated = m.allocated ∧
      (l.foldl Manager.destroy m).used = m.used := by
  induction l generalizing m with
  | nil => exact ⟨fun b => (if_neg List.not_mem_nil).symm, rfl, rfl, rfl, rfl⟩
  | cons a l ih =>
    obtain ⟨hother, hnone, hnodes, htargets, hallocated, hused⟩ := destroy_frame m a
    obtain ⟨hheap, hrest⟩ := ih (m.destroy a)
    rw [List.foldl_cons]
    refine ⟨fun b => ?_, ?_⟩
    · rw [hheap]
      by_cases hb : b = a
      · subst hb
        simp [hnone]
      · rw [hother b hb]
        simp [hb]
    · rw [← hnodes, ← htargets, ← hallocated, ← hused]
      exact hrest

theorem destructible_congr (hheap : m'.heap a = m.heap a) (hnodes : m'.nodes = m.nodes)
    (hcomms : m'.comms = m.comms) : m'.destructible a = m.destructible a := by
  rw [Manager.destructible, Manager.destructible, Manager.targeted, Manager.targeted, Manager.alone,
    Manager.alone, hheap, hnodes, hcomms]

theorem Registered.foldl_destroy {l : List Address} (h : Registered m) (hl : l.Nodup)
    (hclosed : ∀ a ∈ l, ∃ c, m.heap a = some c ∧ c.isOpen = false)
    (hok : ∀ a ∈ l, m.destructible a = true) :
    Registered (l.foldl Manager.destroy m) ∧ (l.foldl Manager.destroy m).comms = m.comms := by
  induction l generalizing m with
  | nil => exact ⟨h, rfl⟩
  | cons a l ih =>
    obtain ⟨hnotin, hl⟩ := List.nodup_cons.mp hl
    obtain ⟨⟨c, hc, hshut⟩, hclosed⟩ := List.forall_mem_cons.mp hclosed
    obtain ⟨hoka, hok⟩ := List.forall_mem_cons.mp hok
    obtain ⟨hother, -, hnodes, -⟩ := destroy_frame m a
    have hcomms := h.comms_destroy hc hshut hoka
    have hne : ∀ b ∈ l, b ≠ a := by
      rintro b hb rfl
      exact hnotin hb
    obtain ⟨hregistered, hsame⟩ := ih (h.destroy hc hoka) hl
      (fun b hb => by rw [hother b (hne b hb)]; exact hclosed b hb)
      (fun b hb => (destructible_congr (hother b (hne b hb)) hnodes hcomms).trans (hok b hb))
    exact ⟨hregistered, hsame.trans hcomms⟩

/-! ## What Elara keeps -/

variable {s : State}

structure Held (s : State) : Prop where
  used : ∀ a c, s.heap a = some c → c.id ∈ s.used
  handlers : ∀ a c, s.heap a = some c → ∀ id, c.handlers = some id → id = c.id ∧ c.loose = false
  listed : ∀ id a, s.openComms id = some a → ∃ c, s.heap a = some c ∧ c.id = id ∧
    c.isOpen = true ∧ c.loose = false ∧ c.handlers = some id
  closed : ∀ a ∈ s.closedComms, ∃ c, s.heap a = some c ∧ c.isOpen = false ∧ c.loose = false
  nodup : s.closedComms.Nodup
  opening : ∀ n, s.running = .opening n → n ∉ s.closedComms ∧
    ∃ c, s.heap n = some c ∧ c.movedFrom = true ∧ c.isOpen = false ∧ c.loose = false
  closing : ∀ id entry, s.running = .closing id entry → s.openComms id = none ∧ id ∈ s.used ∧
    ∀ a, entry = some a → ∃ c, s.heap a = some c ∧ c.id = id ∧ c.isOpen = true ∧ c.loose = false

structure Inv (s : State) : Prop where
  named : s.Named
  registered : Registered s.toManager
  held : Held s

theorem inv_init : Inv {} where
  named name node := iff_of_false (fun h => by cases h) fun h => by cases h
  registered id a := iff_of_false (fun h => by cases h) fun ⟨c, hc, _⟩ => by cases hc
  held := {
    used a c h := by cases h
    handlers a c h := by cases h
    listed id a h := by cases h
    closed a h := by cases h
    nodup := List.nodup_nil
    opening n h := by cases h
    closing id entry h := by cases h }

/-- Only loose comms change, or such as were not there. -/
theorem Held.manage (h : Held s) (hused : s.used ⊆ m.used)
    (hkept : ∀ a c, s.heap a = some c → c.loose = false → m.heap a = some c)
    (hnew : ∀ a c, m.heap a = some c →
      c.id ∈ m.used ∧ ∀ id, c.handlers = some id → id = c.id ∧ c.loose = false) :
    Held (s.manage m) where
  used a c hc := (hnew a c hc).1
  handlers a c hc := (hnew a c hc).2
  listed id a ha := by
    obtain ⟨c, hc, hid, hopen, hloose, hhandlers⟩ := h.listed id a ha
    exact ⟨c, hkept a c hc hloose, hid, hopen, hloose, hhandlers⟩
  closed a ha := by
    obtain ⟨c, hc, hopen, hloose⟩ := h.closed a ha
    exact ⟨c, hkept a c hc hloose, hopen, hloose⟩
  nodup := h.nodup
  opening n hn := by
    obtain ⟨hnotin, c, hc, hmoved, hopen, hloose⟩ := h.opening n hn
    exact ⟨hnotin, c, hkept n c hc hloose, hmoved, hopen, hloose⟩
  closing id entry hrunning := by
    obtain ⟨hnone, hid, hentry⟩ := h.closing id entry hrunning
    refine ⟨hnone, hused hid, fun a ha => ?_⟩
    obtain ⟨c, hc, hcid, hopen, hloose⟩ := hentry a ha
    exact ⟨c, hkept a c hc hloose, hcid, hopen, hloose⟩

theorem Held.new (h : Held s) (hc : s.heap a = some c) :
    c.id ∈ s.used ∧ ∀ id, c.handlers = some id → id = c.id ∧ c.loose = false :=
  ⟨h.used a c hc, h.handlers a c hc⟩

/-- What is reaped is what was closed. -/
theorem reapClosed_frame (s : State) :
    (∀ b, s.reapClosed.heap b = if b ∈ s.closedComms then none else s.heap b) ∧
      s.reapClosed.nodes = s.nodes ∧ s.reapClosed.targets = s.targets ∧
      s.reapClosed.allocated = s.allocated ∧ s.reapClosed.used = s.used :=
  foldl_destroy_frame s.closedComms s.toManager

theorem reapClosed_comms (hs : Inv s) (hok : s.reapable = true) :
    Registered s.reapClosed.toManager ∧ s.reapClosed.comms = s.comms := by
  refine hs.registered.foldl_destroy hs.held.nodup (fun a ha => ?_) (List.all_eq_true.mp hok)
  obtain ⟨c, hc, hopen, -⟩ := hs.held.closed a ha
  exact ⟨c, hc, hopen⟩

/-- One that is open is not reaped. -/
theorem Held.heap_reapClosed (h : Held s) (hc : s.heap a = some c)
    (ha : c.isOpen = true ∨ a ∉ s.closedComms) : s.reapClosed.heap a = some c := by
  rw [(reapClosed_frame s).1, if_neg, hc]
  rcases ha with hopen | ha
  · intro hmem
    obtain ⟨c', hc', hclosed, -⟩ := h.closed a hmem
    obtain rfl : c = c' := Option.some.inj (hc.symm.trans hc')
    exact Bool.false_ne_true (hclosed.symm.trans hopen)
  · exact ha

theorem heap_of_reapClosed (hc : s.reapClosed.heap a = some c) : s.heap a = some c := by
  rw [(reapClosed_frame s).1] at hc
  split at hc
  · cases hc
  · exact hc

theorem Inv.reapClosed (hs : Inv s) (hok : s.reapable = true) : Inv s.reapClosed where
  named := hs.named.congr (reapClosed_frame s).2.2.1 (reapClosed_frame s).2.1
  registered := (reapClosed_comms hs hok).1
  held := by
    have hused := (reapClosed_frame s).2.2.2.2
    constructor
    case used =>
      intro a c hc
      rw [hused]
      exact hs.held.used a c (heap_of_reapClosed hc)
    case handlers => exact fun a c hc => hs.held.handlers a c (heap_of_reapClosed hc)
    case listed =>
      intro id a ha
      obtain ⟨c, hc, hid, hopen, hrest⟩ := hs.held.listed id a ha
      exact ⟨c, hs.held.heap_reapClosed hc (.inl hopen), hid, hopen, hrest⟩
    case closed => exact fun a ha => by cases ha
    case nodup => exact List.nodup_nil
    case opening =>
      intro n hn
      obtain ⟨hnotin, c, hc, hrest⟩ := hs.held.opening n hn
      exact ⟨List.not_mem_nil, c, hs.held.heap_reapClosed hc (.inr hnotin), hrest⟩
    case closing =>
      intro id entry hrunning
      obtain ⟨hnone, hid, hentry⟩ := hs.held.closing id entry hrunning
      refine ⟨hnone, hused ▸ hid, fun a ha => ?_⟩
      obtain ⟨c, hc, hcid, hopen, hloose⟩ := hentry a ha
      exact ⟨c, hs.held.heap_reapClosed hc (.inl hopen), hcid, hopen, hloose⟩

/-! ## Targets -/

theorem Registered.congr (h : Registered m) (hcomms : m'.comms = m.comms) (hheap : m'.heap = m.heap) :
    Registered m' := by
  unfold Registered
  rw [hcomms, hheap]
  exact h

theorem Held.congr (h : Held s) (hheap : m.heap = s.heap) (hused : m.used = s.used) :
    Held (s.manage m) := by
  refine h.manage (fun id hid => hused ▸ hid) (fun a c hc _ => ?_) fun a c hc => ?_
  · rw [hheap, hc]
  · rw [hused]
    exact h.new (hheap ▸ hc)

theorem Inv.registerTarget (hs : Inv s) (hok : s.reapable = true) (name : String) (node : Address) :
    Inv (s.registerTarget name node) := by
  unfold State.registerTarget
  split
  case isTrue => exact hs
  rename_i hfree
  have ht := hs.reapClosed hok
  obtain ⟨hcomms, hheap, -, hused⟩ := s.reapClosed.registerCommTarget_frame name node
  refine ⟨ht.named.register ?_, ht.registered.congr hcomms hheap, ht.held.congr hheap hused⟩
  rw [(reapClosed_frame s).2.1]
  exact not_not.mp hfree

theorem Inv.unregisterTarget (hs : Inv s) (hok : s.reapable = true) (name : String) :
    Inv (s.unregisterTarget name) := by
  have ht := hs.reapClosed hok
  obtain ⟨hcomms, hheap, -, hused⟩ := s.reapClosed.unregisterCommTarget_frame name
  exact ⟨ht.named.unregister name, ht.registered.congr hcomms hheap, ht.held.congr hheap hused⟩

/-! ## Comms that Elara makes and closes -/

/-- A comm gets handlers. -/
theorem Registered.relabel (h : Registered m) (hc : m.heap a = some c) (hid : d.id = c.id)
    (hopen : d.isOpen = c.isOpen) (hcomms : m'.comms = m.comms)
    (hheap : m'.heap = Function.update m.heap a (some d)) : Registered m' := by
  intro id b
  rw [hcomms, hheap, h]
  by_cases hb : b = a
  · subst hb
    rw [Function.update_self]
    constructor
    · rintro ⟨c', hc', rfl, hopen'⟩
      obtain rfl : c = c' := Option.some.inj (hc.symm.trans hc')
      exact ⟨d, rfl, hid, hopen.trans hopen'⟩
    · rintro ⟨d', hd', rfl, hopen'⟩
      obtain rfl : d = d' := Option.some.inj hd'
      exact ⟨c, hc, hid.symm, hopen.symm.trans hopen'⟩
  · rw [Function.update_of_ne hb]

theorem keep_eq (hc : s.heap a = some c) (hnone : s.openComms c.id = none) : s.keep a =
    { s.manage (s.put a { c with handlers := some c.id }) with
      openComms := Function.update s.openComms c.id (some a) } := by
  rw [State.keep, hc]
  dsimp only
  rw [hnone]

theorem Inv.keep (hs : Inv s) (hc : s.heap a = some c) (hopen : c.isOpen = true)
    (hloose : c.loose = false) (hnone : s.openComms c.id = none)
    (hrunning : ∀ entry, s.running ≠ .closing c.id entry) : Inv (s.keep a) := by
  have hcases : ∀ b d, Function.update s.heap a (some { c with handlers := some c.id }) b = some d →
      d = { c with handlers := some c.id } ∨ s.heap b = some d := by
    intro b d hd
    by_cases hb : b = a
    · subst hb
      rw [Function.update_self] at hd
      exact .inl (Option.some.inj hd).symm
    · rw [Function.update_of_ne hb] at hd
      exact .inr hd
  -- the comm at another address is the same
  have hother : ∀ b d, s.heap b = some d → b ≠ a →
      Function.update s.heap a (some { c with handlers := some c.id }) b = some d :=
    fun b d hd hb => (Function.update_of_ne hb _ _).trans hd
  have hclosed : ∀ b d, s.heap b = some d → d.isOpen = false → b ≠ a := by
    rintro b d hd hshut rfl
    obtain rfl : c = d := Option.some.inj (hc.symm.trans hd)
    exact Bool.false_ne_true (hshut.symm.trans hopen)
  rw [keep_eq hc hnone]
  refine ⟨hs.named,
    hs.registered.relabel (d := { c with handlers := some c.id }) hc rfl rfl rfl rfl, ?_⟩
  constructor
  case used =>
    intro b d hd
    rcases hcases b d hd with rfl | hd
    · exact List.mem_cons_self
    · exact List.mem_cons_of_mem _ (hs.held.used b d hd)
  case handlers =>
    intro b d hd id hid
    rcases hcases b d hd with rfl | hd
    · exact ⟨(Option.some.inj hid).symm, hloose⟩
    · exact hs.held.handlers b d hd id hid
  case listed =>
    intro id b hb
    replace hb : Function.update s.openComms c.id (some a) id = some b := hb
    by_cases hid : id = c.id
    · subst hid
      rw [Function.update_self] at hb
      obtain rfl := Option.some.inj hb
      exact ⟨_, Function.update_self _ _ _, rfl, hopen, hloose, rfl⟩
    · rw [Function.update_of_ne hid] at hb
      obtain ⟨d, hd, hdid, hrest⟩ := hs.held.listed id b hb
      refine ⟨d, hother b d hd ?_, hdid, hrest⟩
      rintro rfl
      exact hid (hdid.symm.trans (congrArg Comm.id (Option.some.inj (hd.symm.trans hc))))
  case closed =>
    intro b hb
    obtain ⟨d, hd, hshut, hrest⟩ := hs.held.closed b hb
    exact ⟨d, hother b d hd (hclosed b d hd hshut), hshut, hrest⟩
  case nodup => exact hs.held.nodup
  case opening =>
    intro n hn
    obtain ⟨hnotin, d, hd, hmoved, hshut, hrest⟩ := hs.held.opening n hn
    exact ⟨hnotin, d, hother n d hd (hclosed n d hd hshut), hmoved, hshut, hrest⟩
  case closing =>
    intro id entry hclosing
    obtain ⟨hid, hused, hentry⟩ := hs.held.closing id entry hclosing
    have hne : id ≠ c.id := by
      rintro rfl
      exact hrunning entry hclosing
    refine ⟨(Function.update_of_ne hne _ _).trans hid, List.mem_cons_of_mem _ hused, fun b hb => ?_⟩
    obtain ⟨d, hd, hdid, hrest⟩ := hentry b hb
    refine ⟨d, hother b d hd ?_, hdid, hrest⟩
    rintro rfl
    exact hne (hdid.symm.trans (congrArg Comm.id (Option.some.inj (hd.symm.trans hc))))

theorem Held.openComms_of_unused (h : Held s) (hid : id ∉ s.used) : s.openComms id = none := by
  cases hentry : s.openComms id with
  | none => rfl
  | some a =>
    obtain ⟨c, hc, rfl, -⟩ := h.listed id a hentry
    exact absurd (h.used a c hc) hid

theorem Inv.comms_of_unused (hs : Inv s) (hid : id ∉ s.used) : s.comms id = none := by
  cases hentry : s.comms id with
  | none => rfl
  | some a =>
    obtain ⟨c, hc, rfl, -⟩ := (hs.registered id a).mp hentry
    exact absurd (hs.held.used a c hc) hid

/-- A comm where there was none, at whose id there is none. -/
theorem Inv.construct (hs : Inv s) (ha : s.heap a = none) (htarget : s.nodes target ≠ none)
    (hnone : s.comms id = none) (movedFrom loose : Bool) :
    Inv (s.manage (s.toManager.construct a target id movedFrom loose)) := by
  have hframe := (s.put a { id, target, movedFrom, loose }).registerComm_frame target id a
  refine ⟨hs.named.congr hframe.2.2.1 hframe.2.1, hs.registered.construct ha htarget hnone _ _, ?_⟩
  have hheap : (s.toManager.construct a target id movedFrom loose).heap =
      Function.update s.heap a (some { id, target, movedFrom, loose }) := hframe.1
  have hused : (s.toManager.construct a target id movedFrom loose).used = id :: s.used :=
    hframe.2.2.2.2
  refine hs.held.manage ?_ (fun b c hc _ => ?_) fun b c hc => ?_
  · rw [hused]
    exact List.subset_cons_self _ _
  · rw [hheap, Function.update_of_ne, hc]
    rintro rfl
    cases ha.symm.trans hc
  · rw [hheap] at hc
    rw [hused]
    by_cases hb : b = a
    · subst hb
      rw [Function.update_self] at hc
      obtain rfl := Option.some.inj hc
      exact ⟨List.mem_cons_self, fun id h => by cases h⟩
    · rw [Function.update_of_ne hb] at hc
      exact ⟨List.mem_cons_of_mem _ (hs.held.new hc).1, (hs.held.new hc).2⟩

theorem heap_construct (m : Manager) (a target : Address) (id : Guid) (movedFrom loose : Bool) :
    (m.construct a target id movedFrom loose).heap =
      Function.update m.heap a (some { id, target, movedFrom, loose }) :=
  (Manager.registerComm_frame _ _ _ _).1

theorem Inv.newComm (hs : Inv s) (hok : s.reapable = true) (name : String) (movedFrom : Bool) :
    Inv (s.newComm name id a movedFrom) := by
  unfold State.newComm
  dsimp only
  split
  case isTrue => exact hs
  rename_i hguard
  obtain ⟨hfresh, hfree⟩ : id ∉ s.used ∧ s.reapClosed.heap a = none := by simpa using hguard
  have ht := hs.reapClosed hok
  have hunused : id ∉ s.reapClosed.used := by
    rw [(reapClosed_frame s).2.2.2.2]
    exact hfresh
  split
  case h_1 => exact ht
  rename_i target htarget
  have hnode : s.reapClosed.nodes target ≠ none := by
    rw [(ht.named name target).mp htarget]
    exact fun h => by cases h
  refine (ht.construct hfree hnode (ht.comms_of_unused hunused) movedFrom false).keep
    (c := { id, target, movedFrom }) ?_ rfl rfl ?_ fun entry hrunning => ?_
  · show (s.reapClosed.toManager.construct a target id movedFrom false).heap a = _
    rw [heap_construct, Function.update_self]
  · exact ht.held.openComms_of_unused hunused
  · exact hunused (ht.held.closing id entry hrunning).2.1

/-- The comm goes with its entry. -/
theorem Inv.remove (hs : Inv s) (ha : s.openComms id = some a) (hok : s.destructible a = true) :
    Inv { s.manage (s.destroy a) with openComms := Function.update s.openComms id none } := by
  obtain ⟨c, hc, rfl, hopen, hloose, -⟩ := hs.held.listed id a ha
  obtain ⟨hother, hnone, hnodes, htargets, -, hused⟩ := destroy_frame s.toManager a
  have hkept : ∀ b d, s.heap b = some d → b ≠ a → (s.destroy a).heap b = some d :=
    fun b d hd hb => (hother b hb).trans hd
  have hback : ∀ b d, (s.destroy a).heap b = some d → s.heap b = some d := by
    intro b d hd
    by_cases hb : b = a
    · subst hb
      cases hnone.symm.trans hd
    · exact (hother b hb).symm.trans hd
  have hshut : ∀ b d, s.heap b = some d → d.isOpen = false → b ≠ a := by
    rintro b d hd hclosed rfl
    obtain rfl : c = d := Option.some.inj (hc.symm.trans hd)
    exact Bool.false_ne_true (hclosed.symm.trans hopen)
  refine ⟨hs.named.congr htargets hnodes, hs.registered.destroy hc hok, ?_⟩
  constructor
  case used =>
    intro b d hd
    show _ ∈ (s.destroy a).used
    rw [hused]
    exact hs.held.used b d (hback b d hd)
  case handlers => exact fun b d hd => hs.held.handlers b d (hback b d hd)
  case listed =>
    intro id b hb
    replace hb : Function.update s.openComms c.id none id = some b := hb
    have hid : id ≠ c.id := by
      rintro rfl
      rw [Function.update_self] at hb
      cases hb
    rw [Function.update_of_ne hid] at hb
    obtain ⟨d, hd, hdid, hrest⟩ := hs.held.listed id b hb
    refine ⟨d, hkept b d hd ?_, hdid, hrest⟩
    rintro rfl
    exact hid (hdid.symm.trans (congrArg Comm.id (Option.some.inj (hd.symm.trans hc))))
  case closed =>
    intro b hb
    obtain ⟨d, hd, hclosed, hrest⟩ := hs.held.closed b hb
    exact ⟨d, hkept b d hd (hshut b d hd hclosed), hclosed, hrest⟩
  case nodup => exact hs.held.nodup
  case opening =>
    intro n hn
    obtain ⟨hnotin, d, hd, hmoved, hclosed, hrest⟩ := hs.held.opening n hn
    exact ⟨hnotin, d, hkept n d hd (hshut n d hd hclosed), hmoved, hclosed, hrest⟩
  case closing =>
    intro id entry hclosing
    obtain ⟨hid, hmem, hentry⟩ := hs.held.closing id entry hclosing
    have hne : id ≠ c.id := by
      rintro rfl
      cases hid.symm.trans ha
    refine ⟨(Function.update_of_ne hne _ _).trans hid, hused.symm ▸ hmem, fun b hb => ?_⟩
    obtain ⟨d, hd, hdid, hrest⟩ := hentry b hb
    refine ⟨d, hkept b d hd ?_, hdid, hrest⟩
    rintro rfl
    exact hne (hdid.symm.trans (congrArg Comm.id (Option.some.inj (hd.symm.trans hc))))

theorem Inv.close (hs : Inv s) (hok : s.reapable = true)
    (hcomm : (s.openComms id).all s.destructible = true) : Inv (s.close id) := by
  have ht := hs.reapClosed hok
  unfold State.close
  dsimp only
  split
  case h_1 => exact ht
  rename_i a ha
  have ha' : s.openComms id = some a := ha
  obtain ⟨c, hc, -, hopen, -⟩ := hs.held.listed id a ha'
  rw [ha', Option.all_some] at hcomm
  refine ht.remove ha ?_
  -- reaping has not touched it
  refine (destructible_congr ?_ (reapClosed_frame s).2.1 (reapClosed_comms hs hok).2).trans hcomm
  rw [hs.held.heap_reapClosed hc (.inl hopen), hc]

/-! ## Requests -/

theorem moveConstruct_frame (hc : m.heap a = some c) (b : Address) :
    (m.moveConstruct b a).heap = Function.update (Function.update m.heap a (some c.husk)) b
        (some { c with movedFrom := false, isOpen := true }) ∧
      (m.moveConstruct b a).nodes = m.nodes ∧ (m.moveConstruct b a).targets = m.targets ∧
      (m.moveConstruct b a).used = c.id :: c.id :: m.used := by
  rw [Manager.moveConstruct, hc]
  obtain ⟨hheap, hnodes, htargets, -, hused⟩ := Manager.registerComm_frame
    ((m.put a c.husk).put b { c with movedFrom := false, isOpen := true }) c.target c.id b
  exact ⟨hheap, hnodes, htargets, hused⟩

/-- Another request is being handled, or none. -/
theorem Held.run (h : Held s) {running : Running}
    (hopening : ∀ n, running = .opening n → n ∉ s.closedComms ∧
      ∃ c, s.heap n = some c ∧ c.movedFrom = true ∧ c.isOpen = false ∧ c.loose = false)
    (hclosing : ∀ id entry, running = .closing id entry → s.openComms id = none ∧ id ∈ s.used ∧
      ∀ a, entry = some a → ∃ c, s.heap a = some c ∧ c.id = id ∧ c.isOpen = true ∧
        c.loose = false) : Held { s with running } :=
  ⟨h.used, h.handlers, h.listed, h.closed, h.nodup, hopening, hclosing⟩

theorem Held.notMem_closedComms (h : Held s) (ha : s.heap a = none) : a ∉ s.closedComms := by
  intro hmem
  obtain ⟨c, hc, -⟩ := h.closed a hmem
  cases ha.symm.trans hc

/-- What is kept is in the map. -/
theorem Inv.comms_of_openComms (hs : Inv s) (h : s.openComms id = some a) : s.comms id = some a := by
  obtain ⟨c, hc, rfl, hopen, -⟩ := hs.held.listed id a h
  exact (hs.registered c.id a).mpr ⟨c, hc, rfl, hopen⟩

theorem Inv.commOpen (hs : Inv s) {name : String} {n k : Address} {movedFrom : Bool}
    (hok : s.targets name = none ∨ s.comms id = none) :
    Inv (s.commOpen name id n k movedFrom) := by
  unfold State.commOpen
  split
  case isTrue => exact hs
  rename_i hguard
  obtain ⟨hidle, hn, hk, hne⟩ : s.running = .idle ∧ s.heap n = none ∧ s.heap k = none ∧ n ≠ k := by
    simpa using hguard
  split
  case h_1 => exact hs
  rename_i target htarget
  have hnone : s.comms id = none := by
    refine hok.resolve_left ?_
    rw [htarget]
    exact fun h => by cases h
  have hnode : s.nodes target ≠ none := by
    rw [(hs.named name target).mp htarget]
    exact fun h => by cases h
  have hentry : s.openComms id = none := by
    cases h : s.openComms id with
    | none => rfl
    | some a => cases hnone.symm.trans (hs.comms_of_openComms h)
  have hmade := hs.construct hn hnode hnone movedFrom false
  set x : Comm := { id, target, movedFrom } with hx
  set made := s.toManager.construct n target id movedFrom false with hmadeEq
  have hmaden : made.heap n = some x := by
    rw [hmadeEq, heap_construct, Function.update_self]
  have hmadek : made.heap k = none := by
    rw [hmadeEq, heap_construct, Function.update_of_ne hne.symm, hk]
  have hmadecomms : made.comms x.id = some n := by
    exact (hmade.registered id n).mpr ⟨x, hmaden, rfl, rfl⟩
  have hmadenodes : made.nodes x.target ≠ none := by
    rw [hmadeEq, Manager.construct, (Manager.registerComm_frame _ _ _ _).2.1]
    exact hnode
  obtain ⟨hheap, hnodes, htargets, hused⟩ := moveConstruct_frame hmaden k
  have hmadeused : made.used = id :: s.used := (Manager.registerComm_frame _ _ _ _).2.2.2.2
  have hmoved : Inv (s.manage (made.moveConstruct k n)) := by
    refine ⟨hmade.named.congr htargets hnodes,
      hmade.registered.moveConstruct hmaden hmadek hmadenodes (.inr hmadecomms), ?_⟩
    refine hs.held.manage ?_ (fun b d hd _ => ?_) fun b d hd => ?_
    · rw [hused, hmadeused]
      intro id' hid'
      simp [hid']
    · have hbn : b ≠ n := by
        rintro rfl
        cases hn.symm.trans hd
      have hbk : b ≠ k := by
        rintro rfl
        cases hk.symm.trans hd
      rw [hheap, Function.update_of_ne hbk, Function.update_of_ne hbn, hmadeEq, heap_construct,
        Function.update_of_ne hbn, hd]
    · rw [hheap] at hd
      rw [hused, hmadeused]
      by_cases hbk : b = k
      · subst hbk
        rw [Function.update_self] at hd
        obtain rfl := Option.some.inj hd
        exact ⟨by simp, fun id h => by cases h⟩
      · rw [Function.update_of_ne hbk] at hd
        by_cases hbn : b = n
        · subst hbn
          rw [Function.update_self] at hd
          obtain rfl := Option.some.inj hd
          exact ⟨by simp [Comm.husk], fun id h => by cases h⟩
        · rw [Function.update_of_ne hbn, hmadeEq, heap_construct, Function.update_of_ne hbn] at hd
          obtain ⟨hmem, hhandlers⟩ := hs.held.new hd
          exact ⟨by simp [hmem], hhandlers⟩
  have hheapk : (made.moveConstruct k n).heap k = some { x with movedFrom := false, isOpen := true } :=
    (congrFun hheap k).trans (Function.update_self _ _ _)
  have hkept : Inv ((s.manage (made.moveConstruct k n)).keep k) := by
    refine hmoved.keep hheapk rfl rfl hentry fun entry hrunning => ?_
    cases hidle.symm.trans hrunning
  have hkeep := keep_eq (s := s.manage (made.moveConstruct k n)) hheapk hentry
  refine ⟨hkept.named, hkept.registered, hkept.held.run ?_ fun id entry h => by cases h⟩
  rintro n' heq
  cases heq
  rw [hkeep]
  refine ⟨hs.held.notMem_closedComms hn, x.husk, ?_, rfl, rfl, rfl⟩
  show Function.update (made.moveConstruct k n).heap k _ n = _
  rw [Function.update_of_ne hne, hheap, Function.update_of_ne hne, Function.update_self]

theorem recipient_eq (h : (m.recipient id).bind m.heap = some c) :
    ∃ a, m.comms id = some a ∧ m.heap a = some c := by
  obtain ⟨a, ha, hc⟩ := Option.bind_eq_some_iff.mp h
  exact ⟨a, (Option.filter_eq_some_iff.mp ha).1, hc⟩

theorem Inv.commClose (hs : Inv s) : Inv (s.commClose id) := by
  unfold State.commClose
  split
  case isTrue => exact hs
  split
  case h_1 => exact hs
  rename_i c hrecipient
  obtain ⟨a, ha, hc⟩ := recipient_eq hrecipient
  obtain ⟨c', hc', rfl, hopen⟩ := (hs.registered id a).mp ha
  obtain rfl : c = c' := Option.some.inj (hc.symm.trans hc')
  have hmem := hs.held.used a c hc
  -- whatever is kept under the id is the comm itself
  have hself : ∀ b, s.openComms c.id = some b → b = a :=
    fun b hb => Option.some.inj ((hs.comms_of_openComms hb).symm.trans ha)
  have hclosing : s.openComms c.id = none →
      Inv { s with running := .closing c.id none } := by
    intro hnone
    refine ⟨hs.named, hs.registered, hs.held.run (fun n h => by cases h) fun id entry h => ?_⟩
    cases h
    exact ⟨hnone, hmem, fun a h => by cases h⟩
  split
  case h_1 hhandlers =>
    refine hclosing ?_
    cases hentry : s.openComms c.id with
    | none => rfl
    | some b =>
      obtain rfl := hself b hentry
      obtain ⟨d, hd, -, -, -, hkept⟩ := hs.held.listed c.id b hentry
      obtain rfl : c = d := Option.some.inj (hc.symm.trans hd)
      cases hhandlers.symm.trans hkept
  case h_2 handler hhandlers =>
    obtain ⟨rfl, hloose⟩ := hs.held.handlers a c hc handler hhandlers
    unfold State.onClose
    split
    case h_1 hnone => exact hclosing hnone
    rename_i b hentry
    obtain rfl := hself b hentry
    refine ⟨hs.named, hs.registered, ?_⟩
    refine ⟨hs.held.used, hs.held.handlers, fun id b' hb' => ?_, hs.held.closed, hs.held.nodup,
      fun n h => (by cases h), fun id entry h => ?_⟩
    · replace hb' : Function.update s.openComms c.id none id = some b' := hb'
      have hid : id ≠ c.id := by
        rintro rfl
        rw [Function.update_self] at hb'
        cases hb'
      rw [Function.update_of_ne hid] at hb'
      exact hs.held.listed id b' hb'
    · cases h
      refine ⟨Function.update_self _ _ _, hmem, fun a' ha' => ?_⟩
      cases ha'
      exact ⟨c, hc, rfl, hopen, hloose⟩

/-- The comm of the entry that goes is closed; others are as they were. -/
theorem Registered.heap_forget (h : Registered m) (id : Guid) :
    (∀ b d, m.heap b = some d → (m.comms id = some b ∧
        (m.forget id).heap b = some { d with isOpen := false }) ∨
      (m.comms id ≠ some b ∧ (m.forget id).heap b = some d)) ∧
    ∀ b, m.heap b = none → (m.forget id).heap b = none := by
  cases hid : m.comms id with
  | none =>
    have hheap : (m.forget id).heap = m.heap := by
      rw [Manager.forget, hid]
    rw [hheap]
    exact ⟨fun b d hd => .inr ⟨fun h => (by cases h), hd⟩, fun b hb => hb⟩
  | some a =>
    obtain ⟨c, hc, -, -⟩ := (h id a).mp hid
    have hheap : (m.forget id).heap = Function.update m.heap a (some { c with isOpen := false }) := by
      rw [Manager.forget, hid]
      dsimp only
      rw [hc]
      rfl
    rw [hheap]
    refine ⟨fun b d hd => ?_, fun b hb => ?_⟩
    · by_cases hb : b = a
      · subst hb
        obtain rfl : c = d := Option.some.inj (hc.symm.trans hd)
        exact .inl ⟨rfl, Function.update_self _ _ _⟩
      · exact .inr ⟨fun h => hb (Option.some.inj h).symm, (Function.update_of_ne hb _ _).trans hd⟩
    · have hne : b ≠ a := by
        rintro rfl
        cases hb.symm.trans hc
      exact (Function.update_of_ne hne _ _).trans hb

/-- A close handler has returned. -/
theorem Inv.closed (hs : Inv s) {entry : Option Address} (hrunning : s.running = .closing id entry) :
    Inv { s.manage (s.forget id) with
      closedComms := s.closedComms ++ entry.toList
      running := .idle } := by
  obtain ⟨hnone, hmem, hentry⟩ := hs.held.closing id entry hrunning
  obtain ⟨hheap, hfree⟩ := hs.registered.heap_forget id
  -- an open comm of another id, or one that was closed before, is as it was
  have hsame : ∀ b d, s.heap b = some d → d.isOpen = false ∨ d.id ≠ id →
      (s.forget id).heap b = some d := by
    intro b d hd hother
    rcases hheap b d hd with ⟨hb, -⟩ | ⟨-, h⟩
    · obtain ⟨d', hd', hid, hopen⟩ := (hs.registered id b).mp hb
      obtain rfl : d = d' := Option.some.inj (hd.symm.trans hd')
      rcases hother with hclosed | hne
      · exact absurd (hclosed.symm.trans hopen) Bool.false_ne_true
      · exact absurd hid hne
    · exact h
  have hback : ∀ b d, (s.forget id).heap b = some d →
      ∃ d', s.heap b = some d' ∧ d.id = d'.id ∧ d.handlers = d'.handlers ∧ d.loose = d'.loose := by
    intro b d hd
    cases hb : s.heap b with
    | none => cases (hfree b hb).symm.trans hd
    | some d' =>
      rcases hheap b d' hb with ⟨-, h⟩ | ⟨-, h⟩
      all_goals
        obtain rfl := Option.some.inj (h.symm.trans hd)
        exact ⟨_, rfl, rfl, rfl, rfl⟩
  refine ⟨hs.named, hs.registered.forget id, ?_⟩
  constructor
  case used =>
    intro b d hd
    obtain ⟨d', hd', hid, -⟩ := hback b d hd
    rw [hid]
    exact hs.held.used b d' hd'
  case handlers =>
    intro b d hd handler hhandler
    obtain ⟨d', hd', hid, hhandlers, hloose⟩ := hback b d hd
    rw [hid, hloose]
    exact hs.held.handlers b d' hd' handler (hhandlers.symm.trans hhandler)
  case listed =>
    intro id' b hb
    obtain ⟨d, hd, hdid, hrest⟩ := hs.held.listed id' b hb
    refine ⟨d, hsame b d hd (.inr ?_), hdid, hrest⟩
    rintro rfl
    rw [hdid] at hnone
    cases hnone.symm.trans hb
  case closed =>
    intro b hb
    rcases List.mem_append.mp hb with hb | hb
    · obtain ⟨d, hd, hclosed, hrest⟩ := hs.held.closed b hb
      exact ⟨d, hsame b d hd (.inl hclosed), hclosed, hrest⟩
    · obtain ⟨d, hd, rfl, hopen, hloose⟩ := hentry b (by simpa using hb)
      rcases hheap b d hd with ⟨-, h⟩ | ⟨hne, -⟩
      · exact ⟨_, h, rfl, hloose⟩
      · exact absurd ((hs.registered d.id b).mpr ⟨d, hd, rfl, hopen⟩) hne
  case nodup =>
    refine List.nodup_append.mpr ⟨hs.held.nodup, by cases entry <;> simp, ?_⟩
    rintro b hb b' hb' rfl
    obtain ⟨d, hd, hclosed, -⟩ := hs.held.closed b hb
    obtain ⟨d', hd', -, hopen, -⟩ := hentry b (by simpa using hb')
    obtain rfl : d = d' := Option.some.inj (hd.symm.trans hd')
    exact Bool.false_ne_true (hclosed.symm.trans hopen)
  case opening => exact fun n h => by cases h
  case closing => exact fun id entry h => by cases h

theorem Inv.returned (hs : Inv s) : Inv s.returned := by
  unfold State.returned
  split
  case h_1 => exact hs
  case h_2 n hrunning =>
    obtain ⟨hnotin, c, hc, hmoved, hclosed, hloose⟩ := hs.held.opening n hrunning
    obtain ⟨hother, hnone, hnodes, htargets, -, hused⟩ := destroy_frame s.toManager n
    have hok : s.destructible n = true := (destructible_iff hc).mpr (.inl ⟨hmoved, hclosed⟩)
    have hback : ∀ b d, (s.destroy n).heap b = some d → s.heap b = some d := by
      intro b d hd
      by_cases hb : b = n
      · subst hb
        cases hnone.symm.trans hd
      · exact (hother b hb).symm.trans hd
    refine ⟨hs.named.congr htargets hnodes, hs.registered.destroy hc hok, ?_⟩
    refine ⟨fun b d hd => ?_, fun b d hd => hs.held.handlers b d (hback b d hd), fun id b hb => ?_,
      fun b hb => ?_, hs.held.nodup, fun n h => (by cases h), fun id entry h => by cases h⟩
    · show _ ∈ (s.destroy n).used
      rw [hused]
      exact hs.held.used b d (hback b d hd)
    · obtain ⟨d, hd, hid, hopen, hrest⟩ := hs.held.listed id b hb
      refine ⟨d, (hother b ?_).trans hd, hid, hopen, hrest⟩
      rintro rfl
      obtain rfl : c = d := Option.some.inj (hc.symm.trans hd)
      exact Bool.false_ne_true (hclosed.symm.trans hopen)
    · obtain ⟨d, hd, hrest⟩ := hs.held.closed b hb
      refine ⟨d, (hother b ?_).trans hd, hrest⟩
      rintro rfl
      exact hnotin hb
  case h_3 id entry hrunning => exact hs.closed hrunning

/-! ## Other comms -/

theorem loose_of_isLoose (h : s.isLoose a = true) : ∃ c, s.heap a = some c ∧ c.loose = true := by
  cases hc : s.heap a with
  | none =>
    rw [State.isLoose, hc] at h
    cases h
  | some c =>
    rw [State.isLoose, hc] at h
    exact ⟨c, rfl, h⟩

/-- A comm that is loose has no handlers of Elara's. -/
theorem Held.handlers_of_loose (h : Held s) (hc : s.heap a = some c) (hloose : c.loose = true) :
    c.handlers = none := by
  cases hhandlers : c.handlers with
  | none => rfl
  | some id =>
    have hfalse := (h.handlers a c hc id hhandlers).2
    exact absurd (hfalse.symm.trans hloose) Bool.false_ne_true

/-- One loose comm, or an address where there was none, gets a comm without handlers. -/
theorem Held.update (h : Held s) (ha : ∀ c, s.heap a = some c → c.loose = true) {x : Option Comm}
    (hheap : m.heap = Function.update s.heap a x) (hused : s.used ⊆ m.used)
    (hx : ∀ c, x = some c → c.id ∈ m.used ∧ c.handlers = none) : Held (s.manage m) := by
  refine h.manage hused (fun b d hd hloose => ?_) fun b d hd => ?_
  · rw [hheap, Function.update_of_ne, hd]
    rintro rfl
    exact Bool.false_ne_true (hloose.symm.trans (ha d hd))
  · rw [hheap] at hd
    by_cases hb : b = a
    · subst hb
      rw [Function.update_self] at hd
      obtain ⟨hmem, hnone⟩ := hx d hd
      exact ⟨hmem, fun id h => by cases hnone.symm.trans h⟩
    · rw [Function.update_of_ne hb] at hd
      exact ⟨hused (h.new hd).1, (h.new hd).2⟩

/-- Two of them do. -/
theorem Held.update_two (h : Held s) (ha : ∀ c, s.heap a = some c → c.loose = true)
    (hb : ∀ c, s.heap b = some c → c.loose = true) (hcd : c.loose = true)
    (hheap : m.heap = Function.update (Function.update s.heap a (some c)) b (some d))
    (hused : s.used ⊆ m.used) (hc : c.id ∈ m.used ∧ c.handlers = none)
    (hd : d.id ∈ m.used ∧ d.handlers = none) : Held (s.manage m) := by
  have hfirst : Held (s.manage { m with heap := Function.update s.heap a (some c) }) := by
    refine h.update ha rfl hused ?_
    rintro _ ⟨⟩
    exact hc
  refine hfirst.update (fun e he => ?_) hheap (fun _ h => h) ?_
  · replace he : Function.update s.heap a (some c) b = some e := he
    by_cases hba : b = a
    · subst hba
      rw [Function.update_self] at he
      obtain rfl := Option.some.inj he
      exact hcd
    · rw [Function.update_of_ne hba] at he
      exact hb e he
  · rintro _ ⟨⟩
    exact hd

theorem alone_iff (hc : m.heap a = some c) :
    m.alone a = true ↔ m.comms c.id = none ∨ m.comms c.id = some a := by
  simp [Manager.alone, hc]

theorem targeted_iff (hc : m.heap a = some c) : m.targeted a = true ↔ m.nodes c.target ≠ none := by
  simp [Manager.targeted, hc]

theorem Inv.moveConstruct (hs : Inv s) (ha : s.isLoose a = true) (hb : s.heap b = none)
    (htarget : s.targeted a = true) (halone : s.alone a = true) :
    Inv (s.manage (s.moveConstruct b a)) := by
  obtain ⟨c, hc, hloose⟩ := loose_of_isLoose ha
  obtain ⟨hheap, hnodes, htargets, hused⟩ := moveConstruct_frame hc b
  have hnone := hs.held.handlers_of_loose hc hloose
  refine ⟨hs.named.congr htargets hnodes,
    hs.registered.moveConstruct hc hb ((targeted_iff hc).mp htarget) ((alone_iff hc).mp halone), ?_⟩
  refine hs.held.update_two (a := a) (b := b) (c := c.husk) (fun d hd => ?_) (fun d hd => ?_) hloose
    hheap ?_ ?_ ?_
  · obtain rfl : c = d := Option.some.inj (hc.symm.trans hd)
    exact hloose
  · cases hb.symm.trans hd
  · rw [hused]
    exact fun id hid => by simp [hid]
  · rw [hused]
    exact ⟨List.mem_cons_self, rfl⟩
  · rw [hused]
    exact ⟨List.mem_cons_self, hnone⟩

theorem Inv.copyConstruct (hs : Inv s) (ha : s.isLoose a = true) (hb : s.heap b = none)
    (hid : id ∉ s.used) (htarget : s.targeted a = true) :
    Inv (s.manage (s.copyConstruct b a id)) := by
  obtain ⟨c, hc, hloose⟩ := loose_of_isLoose ha
  have hcopy : s.copyConstruct b a id = s.toManager.construct b c.target id false c.loose := by
    rw [Manager.copyConstruct, hc]
  rw [hcopy]
  exact hs.construct hb ((targeted_iff hc).mp htarget) (hs.comms_of_unused hid) false c.loose

theorem Inv.moveAssign (hs : Inv s) (ha : s.isLoose a = true) (hb : s.isLoose b = true)
    (hne : a ≠ b)
    (halonea : s.alone a = true ∨ ((s.heap a).all fun d => s.comms d.id = some b) = true)
    (htarget : s.targeted b = true) (haloneb : s.alone b = true) :
    Inv (s.manage (s.moveAssign a b)) := by
  obtain ⟨d, hd, hdloose⟩ := loose_of_isLoose ha
  obtain ⟨c, hc, hcloose⟩ := loose_of_isLoose hb
  obtain ⟨hheap, hnodes, htargets, hused, -⟩ := moveAssign_frame hd hc
  have hnone := hs.held.handlers_of_loose hc hcloose
  have haloned : (s.comms d.id = none ∨ s.comms d.id = some a) ∨ s.comms d.id = some b := by
    refine halonea.imp (alone_iff hd).mp fun h => ?_
    rw [hd, Option.all_some] at h
    exact of_decide_eq_true h
  refine ⟨hs.named.congr htargets hnodes,
    hs.registered.moveAssign hd hc hne ((targeted_iff hc).mp htarget) haloned
      ((alone_iff hc).mp haloneb), ?_⟩
  refine hs.held.update_two (a := a) (b := b) (d := c.husk) (fun e he => ?_) (fun e he => ?_) ?_
    hheap ?_ ?_ ?_
  · obtain rfl : d = e := Option.some.inj (hd.symm.trans he)
    exact hdloose
  · obtain rfl : c = e := Option.some.inj (hc.symm.trans he)
    exact hcloose
  · exact hdloose
  · rw [hused]
    exact fun id hid => by simp [hid]
  · rw [hused]
    exact ⟨List.mem_cons_self, hnone⟩
  · rw [hused]
    exact ⟨List.mem_cons_self, rfl⟩

theorem copyAssign_frame (hd : m.heap a = some d) (hc : m.heap b = some c) (id : Guid) :
    (m.copyAssign a b id).heap = Function.update m.heap a
        (some { d with id, target := c.target, movedFrom := false, isOpen := true }) ∧
      (m.copyAssign a b id).nodes = m.nodes ∧ (m.copyAssign a b id).targets = m.targets ∧
      (m.copyAssign a b id).used = id :: m.used := by
  obtain ⟨hheap, hnodes, htargets, -, hused⟩ := m.unregisterComm_frame c.target d.id
  rw [Manager.copyAssign, hd, hc]
  dsimp only
  obtain ⟨hheap', hnodes', htargets', -, hused'⟩ := Manager.registerComm_frame
    ((m.unregisterComm c.target d.id).put a
      { d with id, target := c.target, movedFrom := false, isOpen := true }) c.target id a
  rw [hheap', hnodes', htargets', hused']
  refine ⟨?_, hnodes, htargets, ?_⟩
  · rw [← hheap]
    rfl
  · rw [← hused]
    rfl

theorem Inv.copyAssign (hs : Inv s) (ha : s.isLoose a = true) (hb : s.isLoose b = true)
    (hid : id ∉ s.used) (halone : s.alone a = true) (htarget : s.targeted b = true) :
    Inv (s.manage (s.copyAssign a b id)) := by
  obtain ⟨d, hd, hdloose⟩ := loose_of_isLoose ha
  obtain ⟨c, hc, -⟩ := loose_of_isLoose hb
  obtain ⟨hheap, hnodes, htargets, hused⟩ := copyAssign_frame hd hc id
  refine ⟨hs.named.congr htargets hnodes,
    hs.registered.copyAssign hd hc ((targeted_iff hc).mp htarget) ((alone_iff hd).mp halone)
      (hs.comms_of_unused hid), ?_⟩
  refine hs.held.update (fun e he => ?_) hheap ?_ ?_
  · obtain rfl : d = e := Option.some.inj (hd.symm.trans he)
    exact hdloose
  · rw [hused]
    exact List.subset_cons_self _ _
  · rintro _ ⟨⟩
    have hnone := hs.held.handlers_of_loose hd hdloose
    rw [hused]
    exact ⟨List.mem_cons_self, hnone⟩

theorem Inv.destroy (hs : Inv s) (ha : s.isLoose a = true) (hok : s.destructible a = true) :
    Inv (s.manage (s.destroy a)) := by
  obtain ⟨c, hc, hloose⟩ := loose_of_isLoose ha
  obtain ⟨hother, hnone, hnodes, htargets, -, hused⟩ := destroy_frame s.toManager a
  refine ⟨hs.named.congr htargets hnodes, hs.registered.destroy hc hok, ?_⟩
  refine hs.held.update (a := a) (x := none) (fun e he => ?_) ?_ (fun id hid => hused ▸ hid)
    fun _ h => by cases h
  · obtain rfl : c = e := Option.some.inj (hc.symm.trans he)
    exact hloose
  · funext b
    by_cases hb : b = a
    · subst hb
      rw [hnone, Function.update_self]
    · rw [hother b hb, Function.update_of_ne hb]

/-! ## The headline -/

theorem Inv.step (hs : Inv s) (e : Event) (hok : orderly s e = true) : Inv (step s e) := by
  cases e with
  | registerTarget name node => exact hs.registerTarget hok name node
  | unregisterTarget name => exact hs.unregisterTarget hok name
  | newComm name id a movedFrom => exact hs.newComm hok name movedFrom
  | list => exact hs.reapClosed hok
  | send id => exact hs
  | close id =>
    obtain ⟨hreapable, hcomm⟩ := Bool.and_eq_true_iff.mp hok
    exact hs.close hreapable hcomm
  | commOpen name id n k movedFrom => exact hs.commOpen (of_decide_eq_true hok)
  | commMsg id => exact hs
  | commClose id => exact hs.commClose
  | commInfo targetName => exact hs
  | returned => exact hs.returned
  | construct name id a movedFrom =>
    show Inv (s.construct name id a movedFrom)
    unfold State.construct
    split
    case h_1 target htarget hfree =>
      have hnode : s.nodes target ≠ none := by
        rw [(hs.named name target).mp htarget]
        exact fun h => by cases h
      refine hs.construct hfree hnode ?_ movedFrom true
      refine (of_decide_eq_true hok).resolve_left ?_
      rw [htarget]
      exact fun h => by cases h
    case h_2 => exact hs
  | moveConstruct b a =>
    obtain ⟨htarget, halone⟩ := Bool.and_eq_true_iff.mp hok
    show Inv (if _ then _ else _)
    split
    case isTrue h => exact hs.moveConstruct h.1 h.2 htarget halone
    case isFalse => exact hs
  | copyConstruct b a id =>
    show Inv (if _ then _ else _)
    split
    case isTrue h => exact hs.copyConstruct h.1 h.2.1 h.2.2 hok
    case isFalse => exact hs
  | moveAssign a b =>
    obtain ⟨hrest, haloneb⟩ := Bool.and_eq_true_iff.mp hok
    obtain ⟨hrest, htarget⟩ := Bool.and_eq_true_iff.mp hrest
    obtain ⟨hne, halonea⟩ := Bool.and_eq_true_iff.mp hrest
    show Inv (if _ then _ else _)
    split
    case isTrue h =>
      exact hs.moveAssign h.1 h.2 (of_decide_eq_true hne) (Bool.or_eq_true_iff.mp halonea) htarget
        haloneb
    case isFalse => exact hs
  | copyAssign a b id =>
    obtain ⟨halone, htarget⟩ := Bool.and_eq_true_iff.mp hok
    show Inv (if _ then _ else _)
    split
    case isTrue h => exact hs.copyAssign h.1 h.2.1 h.2.2 halone htarget
    case isFalse => exact hs
  | destroy a =>
    show Inv (if _ then _ else _)
    split
    case isTrue h => exact hs.destroy h hok
    case isFalse => exact hs

/-- **The map of comms is right** in every state of a run whose steps are all `orderly`. -/
theorem registry_consistent :
    ∀ s, (system.when fun s e => orderly s e = true).Reachable s → Consistent s := by
  intro s hs
  have hinv : Inv s := System.invariant_ofFn inv_init (fun s e hs hok => hs.step e hok) hs
  have hfound : ∀ a c, s.heap a = some c → c.isOpen = true → s.comms c.id = some a :=
    fun a c hc hopen => (hinv.registered c.id a).mpr ⟨c, hc, rfl, hopen⟩
  refine ⟨fun id a h => ?_, hfound, fun id a h => hinv.comms_of_openComms h, fun a c hc hopen => ?_⟩
  · obtain ⟨c, hc, hid, -⟩ := (hinv.registered id a).mp h
    exact ⟨c, hc, hid⟩
  · rw [Manager.recipient, hfound a c hc hopen]
    simp [hc]

/-- A comm is opened, used, closed by the client and reaped; then its id is opened again, and R closes
it. -/
def reopened : List Event :=
  [.registerTarget "t" 0, .commOpen "t" 1 10 11 true, .returned, .send 1, .commMsg 1, .commClose 1,
    .returned, .list, .commOpen "t" 1 10 11 true, .returned, .newComm "t" 2 12 false, .close 1,
    .construct "t" 3 13 false, .moveConstruct 14 13, .moveAssign 13 14]

theorem registry_consistent_reopened : Consistent (reopened.foldl step {}) :=
  registry_consistent _ (System.reachable_of_allSteps (by decide +kernel))

/-- A `comm_open` reuses the id of an open comm: Elara destroys the old one, which takes the new one's
entry out. -/
theorem reused_id_lost : ¬ ∀ s, system.Reachable s → Consistent s := by
  intro h
  let es : List Event := [.registerTarget "t" 0, .commOpen "t" 1 10 11 true, .returned,
    .commOpen "t" 1 10 12 true]
  have hlisted := (h (es.foldl step {}) (System.reachable_foldl _ _ _)).listed 1 12 (by decide +kernel)
  exact absurd hlisted (by decide +kernel)

end Jovian.Comms
