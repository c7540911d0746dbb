import Jovian.Supervisor.Registry
import Mathlib.Tactic.Basic

/-!
# Jovian — custody of a session id

What the registry's operations do to an id, with everything about processes and threads left
out: an operation is in a `Phase`, and what counts is the registry, the locks, and which id
each launch belongs to. This is the abstract model of `createSessionWithId`, `stopSession`
and `restartSession`; the registry refines it (`refines_custody`).

`createSession` holds no lock, so its id is protected by nothing but being new. The lock and
that newness together give `Sound`: an id has at most one operation that builds a session
for it (`build_unique`), nothing is registered under it meanwhile, and an id whose session
was stopped stays unregistered.
-/

namespace Jovian.Registry

variable {ι : Type} (req : Requests ι)

/-! ## The abstract model -/

/-- What an operation is doing with its id. -/
inductive Phase where
  | idle
  | waiting
  | looking
  | lookingAgain
  | stopping (session : Nat)
  | erased
  | building (session : Option Nat)
  | inserted (session : Nat)
  | unlocking (result : Result)
  | returned (result : Result)

@[ext] structure Custody (ι : Type) where
  phase : Nat → Phase
  registry : ι → Option Nat
  locks : ι → Option Nat
  /-- The id each launch is for. -/
  owner : Nat → Option ι

namespace Custody

def goto (c : Custody ι) (o : Nat) (phase : Phase) : Custody ι :=
  { c with phase := Function.update c.phase o phase }

/-- Launch `j` is for `id`. -/
def own (c : Custody ι) (j : Nat) (id : ι) : Custody ι :=
  { c with owner := Function.update c.owner j (some id) }

variable [DecidableEq ι]

def register (c : Custody ι) (id : ι) (session : Option Nat) : Custody ι :=
  { c with registry := Function.update c.registry id session }

def setLock (c : Custody ι) (id : ι) (owner : Option Nat) : Custody ι :=
  { c with locks := Function.update c.locks id owner }

section Projections

variable (c : Custody ι) (o p j : Nat) (f : Phase) (id id' : ι) (v : Option Nat)

omit [DecidableEq ι]

@[simp] theorem goto_phase : (c.goto o f).phase p = if p = o then f else c.phase p :=
  Function.update_apply ..
@[simp] theorem goto_registry : (c.goto o f).registry = c.registry := rfl
@[simp] theorem goto_locks : (c.goto o f).locks = c.locks := rfl
@[simp] theorem goto_owner : (c.goto o f).owner = c.owner := rfl
@[simp] theorem own_phase : (c.own j id).phase = c.phase := rfl
@[simp] theorem own_registry : (c.own j id).registry = c.registry := rfl
@[simp] theorem own_locks : (c.own j id).locks = c.locks := rfl
@[simp] theorem own_owner :
    (c.own j id).owner o = if o = j then some id else c.owner o :=
  Function.update_apply ..

variable [DecidableEq ι]

@[simp] theorem register_phase : (c.register id v).phase = c.phase := rfl
@[simp] theorem register_registry :
    (c.register id v).registry id' = if id' = id then v else c.registry id' :=
  Function.update_apply ..
@[simp] theorem register_locks : (c.register id v).locks = c.locks := rfl
@[simp] theorem register_owner : (c.register id v).owner = c.owner := rfl
@[simp] theorem setLock_phase : (c.setLock id v).phase = c.phase := rfl
@[simp] theorem setLock_registry : (c.setLock id v).registry = c.registry := rfl
@[simp] theorem setLock_locks :
    (c.setLock id v).locks id' = if id' = id then v else c.locks id' :=
  Function.update_apply ..
@[simp] theorem setLock_owner : (c.setLock id v).owner = c.owner := rfl

end Projections

omit [DecidableEq ι] in
theorem goto_self (c : Custody ι) {o : Nat} {f : Phase} (h : c.phase o = f) : c.goto o f = c := by
  subst h
  simp [goto]

end Custody

/-- Where an operation goes when it is over. -/
def finalPhase (kind : Kind) (result : Result) : Phase :=
  if kind = .create then .returned result else .unlocking result

/-- What operation `o` can do next. -/
inductive Move [DecidableEq ι] (req : Requests ι) (c : Custody ι) (o : Nat) : Custody ι → Prop where
  | stay : Move req c o c
  | create (h : c.phase o = .idle) (hkind : req.kind o = .create) :
      Move req c o (c.goto o (.building none))
  | wait (h : c.phase o = .idle) (hkind : req.kind o ≠ .create) : Move req c o (c.goto o .waiting)
  | lock (h : c.phase o = .waiting) (hfree : c.locks (req.id o) = none) :
      Move req c o ((c.setLock (req.id o) (some o)).goto o
        (if req.kind o = .restart then .looking else .lookingAgain))
  | found (h : c.phase o = .looking) (hsome : c.registry (req.id o) ≠ none) :
      Move req c o (c.goto o .lookingAgain)
  | missing (h : c.phase o = .looking) : Move req c o (c.goto o (.unlocking .failed))
  | take (h : c.phase o = .lookingAgain) (i : Nat) (hsome : c.registry (req.id o) = some i) :
      Move req c o (c.goto o (.stopping i))
  | missingAgain (h : c.phase o = .lookingAgain) (hnone : c.registry (req.id o) = none) :
      Move req c o (c.goto o (if req.kind o = .restart then .erased else .unlocking .failed))
  | erase (i : Nat) (h : c.phase o = .stopping i) :
      Move req c o ((c.register (req.id o) none).goto o
        (if req.kind o = .restart then .erased else .unlocking (.stopped i)))
  | eraseAgain (h : c.phase o = .erased) :
      Move req c o ((c.register (req.id o) none).goto o (.building none))
  | start (h : c.phase o = .building none) (j : Nat) (hnew : c.owner j = none) :
      Move req c o ((c.own j (req.id o)).goto o (.building (some j)))
  | fail (j : Option Nat) (h : c.phase o = .building j) :
      Move req c o (c.goto o (finalPhase (req.kind o) .failed))
  | insert (j : Nat) (h : c.phase o = .building (some j)) :
      Move req c o ((c.register (req.id o) (some j)).goto o (.inserted j))
  | done (j : Nat) (h : c.phase o = .inserted j) :
      Move req c o (c.goto o (finalPhase (req.kind o) (.created j)))
  | unlock (result : Result) (h : c.phase o = .unlocking result) :
      Move req c o ((c.setLock (req.id o) none).goto o (.returned result))

/-- The operations' custody of the ids, as a transition system. -/
def custody [DecidableEq ι] : Transition.System (Custody ι) Nat where
  init c := c = ⟨fun _ => .idle, fun _ => none, fun _ => none, fun _ => none⟩
  step c o c' := Move req c o c'

/-! ## Who has an id -/

/-- The phases an operation of its kind can be in. -/
def Allowed : Kind → Phase → Prop
  | .create, .waiting | .create, .looking | .create, .lookingAgain | .create, .stopping _
  | .create, .erased | .create, .unlocking _ | .create, .returned (.stopped _) => False
  | .stop, .looking | .stop, .erased | .stop, .building _ | .stop, .inserted _
  | .stop, .unlocking (.created _) | .stop, .returned (.created _) => False
  | .restart, .unlocking (.stopped _) | .restart, .returned (.stopped _) => False
  | _, _ => True

/-- The phases in which an operation holds its id's lock. -/
def Holds : Kind → Phase → Prop
  | _, .looking | _, .lookingAgain | _, .stopping _ | _, .erased | _, .unlocking _ => True
  | .restart, .building _ | .restart, .inserted _ => True
  | _, _ => False

/-- The phases in which the id's first session has been registered at some time. -/
def Follows : Kind → Phase → Prop
  | .restart, .lookingAgain | _, .stopping _ | _, .erased | .restart, .building _
  | .restart, .inserted _ | .stop, .unlocking (.stopped _) | .stop, .returned (.stopped _) => True
  | _, _ => False

/-- The phases in which the id's session may still be replaced. -/
def Active : Kind → Phase → Prop
  | .restart, .lookingAgain | _, .stopping _ | _, .erased | _, .building _ => True
  | _, _ => False

/-- The id's creation has registered its session. -/
def Known (c : Custody ι) (id : ι) : Prop :=
  ∃ o, req.kind o = .create ∧ req.id o = id ∧
    ((∃ j, c.phase o = .inserted j) ∨ ∃ j, c.phase o = .returned (.created j))

/-- Operation `o` made launch `j`, and is not over. -/
def Has (c : Custody ι) (o j : Nat) : Prop :=
  c.phase o = .building (some j) ∨ c.phase o = .inserted j

attribute [grind =] Allowed Holds Follows Active finalPhase

structure Sound (c : Custody ι) : Prop where
  allowed : ∀ o, Allowed (req.kind o) (c.phase o)
  locked : ∀ o, Holds (req.kind o) (c.phase o) → c.locks (req.id o) = some o
  registered : ∀ id i, c.registry id = some i → Known req c id
  follows : ∀ o, Follows (req.kind o) (c.phase o) → Known req c (req.id o)
  building : ∀ o j, c.phase o = .building j → c.registry (req.id o) = none
  erased : ∀ o, c.phase o = .erased → c.registry (req.id o) = none
  stopping : ∀ o i, c.phase o = .stopping i → c.registry (req.id o) = some i
  gone : ∀ o i, (c.phase o = .unlocking (.stopped i) ∨ c.phase o = .returned (.stopped i)) →
    c.registry (req.id o) = none ∧ ∀ o', req.id o' = req.id o → ¬ Active (req.kind o') (c.phase o')
  owner_registry : ∀ id i, c.registry id = some i → c.owner i = some id
  owner_building : ∀ o j, c.phase o = .building (some j) → c.owner j = some (req.id o)
  owner_inserted : ∀ o j, c.phase o = .inserted j → c.owner j = some (req.id o)
  has_unique : ∀ o o' j, Has c o j → Has c o' j → o = o'

namespace Sound

variable {req} {c : Custody ι} {o o' p : Nat}

/-- Two operations do not hold the same lock. -/
theorem exclusive (h : Sound req c) (ho : Holds (req.kind o) (c.phase o))
    (ho' : Holds (req.kind o') (c.phase o')) (hid : req.id o = req.id o') : o = o' := by
  have h₁ := h.locked o ho
  have h₂ := h.locked o' ho'
  rw [hid, h₂] at h₁
  exact (Option.some.inj h₁).symm

/-- An id whose creation is not over is not known. -/
theorem unknown (h : req.kind o = .create) (ho : (∃ j, c.phase o = .building j) ∨ c.phase o = .idle) :
    ¬ Known req c (req.id o) := by
  rintro ⟨p, hkind, hid, hp⟩
  obtain rfl := req.fresh p o hkind h hid
  grind

/-- **Alone.** While an operation builds a session for an id, no other has the id's first
session behind it. -/
theorem alone (h : Sound req c) {j : Option Nat} (ho : c.phase o = .building j)
    (hf : Follows (req.kind o') (c.phase o')) (hh : Holds (req.kind o') (c.phase o'))
    (hid : req.id o' = req.id o) : o' = o := by
  have hallowed := h.allowed o
  cases hkind : req.kind o with
  | create => exact absurd (hid ▸ h.follows o' hf) (unknown hkind (.inl ⟨j, ho⟩))
  | stop => simp [hkind, ho, Allowed] at hallowed
  | restart => exact h.exclusive hh (by simp [hkind, ho, Holds]) hid

/-- **One builder.** Two operations do not build a session for the same id at once. -/
theorem build_unique (h : Sound req c) {j j' : Option Nat} (ho : c.phase o = .building j)
    (ho' : c.phase o' = .building j') (hid : req.id o' = req.id o) : o' = o := by
  have hallowed := h.allowed o'
  cases hkind : req.kind o' with
  | stop => simp [hkind, ho', Allowed] at hallowed
  | restart => exact h.alone ho (by simp [hkind, ho', Follows]) (by simp [hkind, ho', Holds]) hid
  | create =>
    cases hkind' : req.kind o with
    | create => exact req.fresh o' o hkind hkind' hid
    | stop => simpa [hkind', ho, Allowed] using h.allowed o
    | restart =>
      exact (h.alone ho' (by simp [hkind', ho, Follows]) (by simp [hkind', ho, Holds])
        hid.symm).symm

theorem owner_has (h : Sound req c) {j : Nat} (hp : Has c p j) : c.owner j = some (req.id p) := by
  rcases hp with hp | hp
  · exact h.owner_building p j hp
  · exact h.owner_inserted p j hp

end Sound

/-! ## One step -/

variable [DecidableEq ι]

theorem sound_init {c : Custody ι} (h : (custody req).init c) : Sound req c := by
  obtain rfl : c = _ := h
  constructor <;> simp [Allowed, Holds, Follows, Has]

namespace Sound

variable {req} {c c' : Custody ι} {o p q : Nat}

/-- A move changes its own operation's phase only. -/
theorem phase_other (hmove : Move req c o c') (hp : p ≠ o) : c'.phase p = c.phase p := by
  cases hmove <;> simp [hp]

theorem allowed_step (h : Sound req c) (hmove : Move req c o c') (p : Nat) :
    Allowed (req.kind p) (c'.phase p) := by
  have ho := h.allowed p
  by_cases hp : p = o
  · subst hp
    cases hmove with
    | unlock result => cases result <;> cases hkind : req.kind p <;> simp_all [Allowed]
    | _ => cases hkind : req.kind p <;> simp_all [Allowed, finalPhase]
  · rwa [phase_other hmove hp]

theorem locked_step (h : Sound req c) (hmove : Move req c o c') (p : Nat)
    (hp : Holds (req.kind p) (c'.phase p)) : c'.locks (req.id p) = some p := by
  by_cases hpo : p = o
  · subst hpo
    have hlocked := h.locked p
    have hallowed := h.allowed p
    cases hkind : req.kind p <;> cases hmove <;> simp_all [Holds, Allowed, finalPhase]
  · rw [phase_other hmove hpo] at hp
    have hlocked := h.locked p hp
    -- the id's lock is `p`'s: no other operation takes or releases it
    cases hmove with
    | lock _ hfree => 
      have : req.id p ≠ req.id o := by
        intro hid
        simp [hid, hfree] at hlocked
      simpa [this] using hlocked
    | unlock result ho =>
      have : req.id p ≠ req.id o := fun hid =>
        hpo (h.exclusive hp (by simp [ho, Holds]) hid)
      simpa [this] using hlocked
    | _ => simpa using hlocked

/-- An id stays known. -/
theorem known_step (hmove : Move req c o c') {id : ι} (hk : Known req c id) : Known req c' id := by
  obtain ⟨p, hkind, hid, hphase⟩ := hk
  refine ⟨p, hkind, hid, ?_⟩
  by_cases hp : p = o
  · subst hp
    cases hmove <;> simp_all [finalPhase]
  · rwa [phase_other hmove hp]

/-- A registered session is its id's only if the id is known. -/
theorem registered_step (h : Sound req c) (hmove : Move req c o c') {id : ι} {i : Nat}
    (hi : c'.registry id = some i) : Known req c' id := by
  by_cases hc : c.registry id = some i
  · exact known_step hmove (h.registered id i hc)
  · cases hmove with
    | erase | eraseAgain => exact absurd (by simp_all) hc
    | insert j ho =>
      obtain rfl : id = req.id o := by
        by_contra hid
        exact hc (by simpa [hid] using hi)
      cases hkind : req.kind o with
      | create => exact ⟨o, hkind, rfl, .inl ⟨j, by simp⟩⟩
      | stop => simpa [hkind, ho, Allowed] using h.allowed o
      | restart =>
        exact known_step (.insert j ho) (h.follows o (by simp [hkind, ho, Follows]))
    | _ => exact absurd (by simpa using hi) hc

theorem follows_step (h : Sound req c) (hmove : Move req c o c')
    (hp : Follows (req.kind p) (c'.phase p)) : Known req c' (req.id p) := by
  by_cases hc : Follows (req.kind p) (c.phase p)
  · exact known_step hmove (h.follows p hc)
  · obtain rfl : p = o := by
      by_contra hpo
      exact hc (phase_other hmove hpo ▸ hp)
    have hallowed := h.allowed p
    cases hmove with
    | stay => exact absurd hp hc
    | found ho hsome =>
      obtain ⟨i, hi⟩ := Option.ne_none_iff_exists'.mp hsome
      exact known_step (.found ho hsome) (h.registered _ i hi)
    | take ho i hi => exact known_step (.take ho i hi) (h.registered _ i hi)
    | unlock result ho => cases result <;> cases hkind : req.kind p <;> simp_all [Follows, Allowed]
    | _ => cases hkind : req.kind p <;> simp_all [Follows, Allowed, finalPhase]

theorem building_step (h : Sound req c) (hmove : Move req c o c') {j : Option Nat}
    (hp : c'.phase p = .building j) : c'.registry (req.id p) = none := by
  by_cases hpo : p = o
  · subst hpo
    cases hmove with
    | create ho hkind =>
      -- a new id: nothing has been registered under it
      refine Option.eq_none_iff_forall_ne_some.mpr fun i hi => ?_
      exact unknown hkind (.inr ho) (h.registered _ i (by simpa using hi))
    | start ho k hnew => simpa using h.building p _ ho
    | stay => exact h.building p j hp
    | eraseAgain => simp
    | _ => cases hkind : req.kind p <;> simp_all [finalPhase]
  · rw [phase_other hmove hpo] at hp
    have hnone := h.building p j hp
    cases hmove with
    | insert k ho =>
      have : req.id p ≠ req.id o := fun hid => hpo (h.build_unique ho hp hid)
      simpa [this] using hnone
    | _ => simp_all

/-- While an operation holds the lock of an id whose first session is behind it, no other
changes what is registered under the id. -/
theorem registry_kept (h : Sound req c) (hmove : Move req c o c') (hpo : p ≠ o)
    (hf : Follows (req.kind p) (c.phase p)) (hh : Holds (req.kind p) (c.phase p)) :
    c'.registry (req.id p) = c.registry (req.id p) := by
  cases hmove with
  | erase i ho | eraseAgain ho =>
    have : req.id p ≠ req.id o := fun hid => hpo (h.exclusive hh (by simp [ho, Holds]) hid)
    simp [this]
  | insert j ho =>
    have : req.id p ≠ req.id o := fun hid => hpo (h.alone ho hf hh hid)
    simp [this]
  | _ => simp

theorem erased_step (h : Sound req c) (hmove : Move req c o c') (hp : c'.phase p = .erased) :
    c'.registry (req.id p) = none := by
  by_cases hpo : p = o
  · subst hpo
    cases hmove with
    | stay => exact h.erased p hp
    | _ => cases hkind : req.kind p <;> simp_all [finalPhase]
  · rw [phase_other hmove hpo] at hp
    rw [h.registry_kept hmove hpo (by simp [hp, Follows]) (by simp [hp, Holds])]
    exact h.erased p hp

theorem stopping_step (h : Sound req c) (hmove : Move req c o c') {i : Nat}
    (hp : c'.phase p = .stopping i) : c'.registry (req.id p) = some i := by
  by_cases hpo : p = o
  · subst hpo
    cases hmove with
    | stay => exact h.stopping p i hp
    | _ => cases hkind : req.kind p <;> simp_all [finalPhase]
  · rw [phase_other hmove hpo] at hp
    rw [h.registry_kept hmove hpo (by simp [hp, Follows]) (by simp [hp, Holds])]
    exact h.stopping p i hp

/-- Nothing that is registered under an id, or may be, outlives a stop that was asked for. -/
theorem gone_step (h : Sound req c) (hmove : Move req c o c') {i : Nat}
    (hp : c'.phase p = .unlocking (.stopped i) ∨ c'.phase p = .returned (.stopped i)) :
    c'.registry (req.id p) = none ∧
      ∀ q, req.id q = req.id p → ¬ Active (req.kind q) (c'.phase q) := by
  by_cases hc : c.phase p = .unlocking (.stopped i) ∨ c.phase p = .returned (.stopped i)
  · -- the id was gone: nothing can bring it back
    obtain ⟨hnone, hidle⟩ := h.gone p i hc
    have hstop : req.kind p = .stop := by
      have := h.allowed p
      cases hkind : req.kind p <;> rcases hc with hc | hc <;> simp_all [Allowed]
    have hknown : Known req c (req.id p) := by
      refine h.follows p ?_
      rcases hc with hc | hc <;> simp [hc, hstop, Follows]
    have hidle' : ∀ q, req.id q = req.id p → ¬ Active (req.kind q) (c'.phase q) := by
      intro q hq hactive
      by_cases hqo : q = o
      · subst hqo
        have hbefore := hidle q hq
        cases hmove with
        | create ho hkind => exact unknown hkind (.inr ho) (hq ▸ hknown)
        | found ho hsome => exact hsome (hq ▸ hnone)
        | take ho j hsome => simp [hq, hnone] at hsome
        | stay => exact hbefore hactive
        | _ => cases hkind : req.kind q <;> simp_all [Active, finalPhase]
      · exact hidle q hq (phase_other hmove hqo ▸ hactive)
    refine ⟨?_, hidle'⟩
    cases hmove with
    | insert j ho =>
      have : req.id p ≠ req.id o := fun hid => hidle o hid.symm (by simp [ho, Active])
      simpa [this] using hnone
    | _ => simp_all
  · -- `p` has just erased its session: the others with this id are kept out by its lock
    obtain rfl : p = o := by
      by_contra hpo
      exact hc (phase_other hmove hpo ▸ hp)
    have hallowed := h.allowed p
    cases hmove with
    | erase k ho =>
      refine ⟨by simp, fun q hq hactive => ?_⟩
      by_cases hqp : q = p
      · subst hqp
        cases hkind : req.kind q <;> simp_all [Active]
      · have hold : Holds (req.kind p) (c.phase p) := by simp [ho, Holds]
        have hfollow : Follows (req.kind p) (c.phase p) := by simp [ho, Follows]
        simp only [Custody.goto_phase, Custody.register_phase, hqp, if_false] at hactive
        by_cases hq' : Holds (req.kind q) (c.phase q)
        · exact hqp (h.exclusive hq' hold hq)
        · cases hphase : c.phase q with
          | building j => exact hqp (h.alone hphase hfollow hold hq.symm).symm
          | _ => simp_all [Active, Holds]
    | _ => cases hkind : req.kind p <;> simp_all [Allowed, finalPhase]

/-- A launch's id does not change. -/
theorem owner_kept (hmove : Move req c o c') {id : ι} {i : Nat} (hi : c.owner i = some id) :
    c'.owner i = some id := by
  cases hmove with
  | start ho j hnew =>
    have : i ≠ j := by
      rintro rfl
      simp [hnew] at hi
    simpa [this] using hi
  | _ => simpa using hi

theorem owner_registry_step (h : Sound req c) (hmove : Move req c o c') {id : ι} {i : Nat}
    (hi : c'.registry id = some i) : c'.owner i = some id := by
  by_cases hc : c.registry id = some i
  · exact owner_kept hmove (h.owner_registry id i hc)
  · cases hmove with
    | erase | eraseAgain => exact absurd (by simp_all) hc
    | insert j ho =>
      obtain ⟨rfl, rfl⟩ : id = req.id o ∧ i = j := by
        by_cases hid : id = req.id o
        · exact ⟨hid, by simp_all⟩
        · exact absurd (by simpa [hid] using hi) hc
      simpa using h.owner_building o i ho
    | _ => exact absurd (by simpa using hi) hc

theorem owner_building_step (h : Sound req c) (hmove : Move req c o c') {j : Nat}
    (hp : c'.phase p = .building (some j)) : c'.owner j = some (req.id p) := by
  by_cases hc : c.phase p = .building (some j)
  · exact owner_kept hmove (h.owner_building p j hc)
  · obtain rfl : p = o := by
      by_contra hpo
      exact hc (phase_other hmove hpo ▸ hp)
    cases hmove with
    | stay => exact absurd hp hc
    | _ => cases hkind : req.kind p <;> simp_all [finalPhase]

theorem owner_inserted_step (h : Sound req c) (hmove : Move req c o c') {j : Nat}
    (hp : c'.phase p = .inserted j) : c'.owner j = some (req.id p) := by
  by_cases hc : c.phase p = .inserted j
  · exact owner_kept hmove (h.owner_inserted p j hc)
  · obtain rfl : p = o := by
      by_contra hpo
      exact hc (phase_other hmove hpo ▸ hp)
    have hbuilding := h.owner_building p j
    cases hmove with
    | stay => exact absurd hp hc
    | _ => cases hkind : req.kind p <;> simp_all [finalPhase]

/-- A move gives an operation a launch only by making it. -/
theorem has_before (hmove : Move req c o c') {j : Nat} (hp : Has c' p j) :
    Has c p j ∨ (p = o ∧ c.owner j = none) := by
  by_cases hpo : p = o
  · subst hpo
    cases hmove with
    | start ho k hnew =>
      obtain rfl : k = j := by simpa [Has] using hp
      exact .inr ⟨rfl, hnew⟩
    | insert k ho =>
      obtain rfl : k = j := by simpa [Has] using hp
      exact .inl (.inl ho)
    | stay => exact .inl hp
    | _ => cases hkind : req.kind p <;> simp_all [Has, finalPhase]
  · exact .inl (by rwa [Has, ← phase_other hmove hpo])

theorem has_unique_step (h : Sound req c) (hmove : Move req c o c') {j : Nat} (hp : Has c' p j)
    (hq : Has c' q j) : p = q := by
  rcases has_before hmove hp with hp | ⟨rfl, hnew⟩ <;>
    rcases has_before hmove hq with hq | ⟨rfl, hnew'⟩
  · exact h.has_unique p q j hp hq
  · simp [h.owner_has hp] at hnew'
  · simp [h.owner_has hq] at hnew
  · rfl

/-! ## Every run -/

theorem step (h : Sound req c) (hmove : Move req c o c') : Sound req c' where
  allowed p := h.allowed_step hmove p
  locked p := h.locked_step hmove p
  registered _ _ := h.registered_step hmove
  follows _ := h.follows_step hmove
  building _ _ := h.building_step hmove
  erased _ := h.erased_step hmove
  stopping _ _ := h.stopping_step hmove
  gone _ _ := h.gone_step hmove
  owner_registry _ _ := h.owner_registry_step hmove
  owner_building _ _ := h.owner_building_step hmove
  owner_inserted _ _ := h.owner_inserted_step hmove
  has_unique _ _ _ := h.has_unique_step hmove

end Sound

/-- **The ids are in sound custody** in every state the operations can reach. -/
theorem custody_sound : ∀ c, (custody req).Reachable c → Sound req c :=
  Transition.System.invariant (fun _ => sound_init req) fun _ _ _ _ h hmove => h.step hmove

end Jovian.Registry
