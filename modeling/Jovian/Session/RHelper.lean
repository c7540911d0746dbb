import Jovian.Lib.Transition
import Jovian.Session.AttachCode

/-!
# RHelper — a second R that answers for busy ones (`RHelper` in `r-helper.ts`)

Completion and inspection for an R session that runs a cell are asked of another R process, the helper,
which has the same packages attached. Questions go through a chain, one at a time: each looks for the
helper, or starts one, attaches what it does not have, and asks. Meanwhile helpers start, fail to
start, end, or are stopped.

* **`helper_sound`** — each question reaches a helper that has run `library()` for all its packages; the
  questions are asked in turn, one at a time; no helper is left behind; and a question that fails does not
  hold up the next.
-/

namespace Jovian.RHelper

open Transition (System)

/-! ## The helper -/

/-- What an R session had attached, defined and loaded when it last finished a cell. -/
structure RSessionState where
  packages : List Text
  globals : List Text
  loaded : Option (List Text)

/-- A call of `warm` or `ask`. -/
structure Work (ρ : Type) where
  state : RSessionState
  /-- `warm` asks nothing. -/
  question : Option ρ

inductive Phase where
  | starting
  | running
  | failed
deriving DecidableEq

/-- A session that `create` was called for. -/
structure Helper where
  phase : Phase := .starting
  exited : Bool := false
  /-- `stop()` or `kill()` was called while it was the helper. -/
  told : Bool := false
  /-- The code it has run. -/
  ran : List Text := []

/-- At which `await` the work under way is, and for which session. -/
inductive Pc where
  | session (h : Nat)
  | attaching (h : Nat) (missing : List Text)
  | prepared (h : Nat)
  | requesting (h : Nat)

structure State (ρ : Type) where
  session : Option Nat := none
  attached : List Text := []
  helpers : List Helper := []
  /-- All that was enqueued, and how the first of it was settled. -/
  chain : List (Work ρ) := []
  settled : List Bool := []
  pc : Option Pc := none
  /-- The requests sent: which call it was, and to which session. -/
  asked : List (Nat × Nat) := []

inductive Event (ρ : Type) where
  | enqueue (work : Work ρ)
  /-- The chain goes on with the next call. -/
  | turn
  /-- `await this.session` returns, or throws. -/
  | resume
  | executed (ok : Bool)
  /-- Behind `await this.prepare(state)`. -/
  | request
  | replied (ok : Bool)
  | started (h : Nat)
  | fails (h : Nat)
  | exits (h : Nat)
  /-- `stop()` or `kill()`. -/
  | stop

variable {ρ : Type}

namespace State

variable (s : State ρ)

/-- The call that the chain is at. -/
def work : Option (Work ρ) := s.chain[s.settled.length]?

def settle (ok : Bool) : State ρ :=
  { s with settled := s.settled ++ [ok], pc := none }

/-- `if (this.session === starting) this.session = undefined` -/
def forget (h : Nat) : State ρ :=
  if s.session = some h then { s with session := none } else s

/-- The helper, which is started where there is none. -/
def helper : Nat × State ρ :=
  match s.session with
  | some h => (h, s)
  | none =>
    (s.helpers.length,
      { s with attached := [], helpers := s.helpers ++ [{}], session := some s.helpers.length })

/-- Behind `await this.session`. -/
def attach (h : Nat) (w : Work ρ) : State ρ :=
  let missing := w.state.packages.filter fun p => !s.attached.contains p
  if missing = [] then { s with pc := some (.prepared h) }
  else { s with pc := some (.attaching h missing) }

def phase (h : Nat) : Option Phase := s.helpers[h]?.map Helper.phase

end State

def step (s : State ρ) : Event ρ → State ρ
  | .enqueue work => { s with chain := s.chain ++ [work] }
  | .turn =>
    match s.pc, s.work with
    | none, some _ => { s.helper.2 with pc := some (.session s.helper.1) }
    | _, _ => s
  | .resume =>
    match s.pc, s.work with
    | some (.session h), some w =>
      match s.phase h with
      | some .running => s.attach h w
      | some .failed => s.settle false
      | _ => s
    | _, _ => s
  | .executed ok =>
    match s.pc with
    | some (.attaching h missing) =>
      if ok then
        { s with
          attached := s.attached ++ missing
          helpers := s.helpers.modify h fun x => { x with ran := x.ran ++ [attachCode missing] }
          pc := some (.prepared h) }
      else s.settle false
    | _ => s
  | .request =>
    match s.pc, s.work with
    | some (.prepared h), some w =>
      match w.question with
      | none => s.settle true
      | some _ => { s with asked := s.asked ++ [(s.settled.length, h)], pc := some (.requesting h) }
    | _, _ => s
  | .replied ok =>
    match s.pc with
    | some (.requesting _) => s.settle ok
    | _ => s
  | .started h =>
    if s.phase h = some .starting then
      { s with helpers := s.helpers.modify h fun x => { x with phase := .running } }
    else s
  | .fails h =>
    if s.phase h = some .starting then
      { s with helpers := s.helpers.modify h fun x => { x with phase := .failed } }.forget h
    else s
  | .exits h =>
    if s.phase h = some .running then
      { s with helpers := s.helpers.modify h fun x => { x with exited := true } }.forget h
    else s
  | .stop =>
    match s.session with
    | none => s
    | some h =>
      { s with helpers := s.helpers.modify h fun x => { x with told := true }, session := none }

def system (ρ : Type) : System (State ρ) (Event ρ) := System.ofFn {} step

/-! ## What is promised -/

/-- What R has run `library()` for. -/
def Helper.attached (x : Helper) : List Text := x.ran.flatMap attachedBy

/-- What has to happen next for the work under way to go on; `ok` says how. -/
def State.next (s : State ρ) (ok : Bool) : Event ρ :=
  match s.pc with
  | none => .turn
  | some (.session h) => if s.phase h = some .starting then if ok then .started h else .fails h else .resume
  | some (.attaching _ _) => .executed ok
  | some (.prepared _) => .request
  | some (.requesting _) => .replied ok

def serve (s : State ρ) (ok : Bool) : State ρ := step s (s.next ok)

/-- A session that needs no more looking after. -/
def Helper.Over (x : Helper) : Prop := x.phase = .failed ∨ x.exited = true ∨ x.told = true

structure Sound (s : State ρ) : Prop where
  /-- A question reaches a helper that has all its packages. -/
  attached : ∀ job h, (job, h) ∈ s.asked → ∃ w x, s.chain[job]? = some w ∧ s.helpers[h]? = some x ∧
    ∀ p ∈ w.state.packages, p ∈ x.attached
  in_turn : s.asked.Pairwise (·.1 < ·.1)
  /-- A question is sent when those before it are settled. -/
  one_at_a_time : ∀ job h, (job, h) ∈ s.asked →
    job < s.settled.length ∨ job = s.settled.length ∧ s.pc = some (.requesting h)
  /-- Every session is the helper's, or ended, or was told to. -/
  none_left : ∀ h x, s.helpers[h]? = some x → s.session = some h ∨ x.Over
  /-- Whatever the sessions answer, all calls are settled. -/
  settles : ∀ answers : List Bool, 6 * (s.chain.length - s.settled.length) ≤ answers.length →
    (answers.foldl serve s).settled.length = s.chain.length

/-! ## The invariant -/

/-- Which session the work under way is given. -/
def Pc.helper : Pc → Nat
  | .session h | .attaching h _ | .prepared h | .requesting h => h

/-- What is known of the packages of the work under way. -/
def State.Prepared (s : State ρ) (w : Work ρ) : Prop :=
  match s.pc with
  | some (.attaching _ missing) => ∀ p ∈ w.state.packages, p ∈ s.attached ∨ p ∈ missing
  | some (.prepared _) | some (.requesting _) => ∀ p ∈ w.state.packages, p ∈ s.attached
  | _ => True

structure Inv (s : State ρ) : Prop where
  /-- The helper is the session that was created last, and so is that of the work under way. -/
  last : ∀ h, s.session = some h → h + 1 = s.helpers.length
  under_way : ∀ pc, s.pc = some pc → pc.helper + 1 = s.helpers.length ∧ ∃ w, s.work = some w ∧ s.Prepared w
  /-- `attached` is about that session. -/
  ran : ∀ x, s.helpers[s.helpers.length - 1]? = some x → ∀ p ∈ s.attached, p ∈ x.attached
  asked : ∀ job h, (job, h) ∈ s.asked → ∃ w x, s.chain[job]? = some w ∧ s.helpers[h]? = some x ∧
    ∀ p ∈ w.state.packages, p ∈ x.attached
  in_turn : s.asked.Pairwise (·.1 < ·.1)
  at_most : ∀ job h, (job, h) ∈ s.asked →
    job < s.settled.length ∨ job = s.settled.length ∧ s.pc = some (.requesting h)
  none_left : ∀ h x, s.helpers[h]? = some x → s.session = some h ∨ x.Over
  counted : s.settled.length ≤ s.chain.length

section Steps

variable {s : State ρ}

theorem getElem?_modify_some {hs : List Helper} {h h' : Nat} {f : Helper → Helper} {x' : Helper}
    (hx' : (hs.modify h f)[h']? = some x') : ∃ x, hs[h']? = some x ∧ x' = if h = h' then f x else x := by
  rw [List.getElem?_modify] at hx'
  obtain ⟨x, hx, rfl⟩ := Option.map_eq_some_iff.mp hx'
  exact ⟨x, hx, rfl⟩

/-- A session has run some more, or is over. -/
theorem Inv.modify (hs : Inv s) (h : Nat) {f : Helper → Helper}
    (hover : ∀ x, s.helpers[h]? = some x → x.Over → (f x).Over)
    (hran : ∀ x, x.attached ⊆ (f x).attached) : Inv { s with helpers := s.helpers.modify h f } where
  last h' hh' := by
    show h' + 1 = (s.helpers.modify h f).length
    rw [List.length_modify]
    exact hs.last h' hh'
  under_way pc hpc := by
    show pc.helper + 1 = (s.helpers.modify h f).length ∧ _
    rw [List.length_modify]
    exact hs.under_way pc hpc
  ran x' hx' p hp := by
    rw [List.length_modify] at hx'
    obtain ⟨x, hx, rfl⟩ := getElem?_modify_some hx'
    split
    · exact hran x (hs.ran x hx p hp)
    · exact hs.ran x hx p hp
  asked job h' hasked := by
    obtain ⟨w, x, hw, hx, hall⟩ := hs.asked job h' hasked
    refine ⟨w, if h = h' then f x else x, hw, ?_, fun p hp => ?_⟩
    · show (s.helpers.modify h f)[h']? = _
      rw [List.getElem?_modify, hx]
      rfl
    · split
      · exact hran x (hall p hp)
      · exact hall p hp
  in_turn := hs.in_turn
  at_most := hs.at_most
  none_left h' x' hx' := by
    obtain ⟨x, hx, rfl⟩ := getElem?_modify_some hx'
    refine (hs.none_left h' x hx).imp_right fun hx' => ?_
    split
    · next heq => exact hover x (heq ▸ hx) hx'
    · exact hx'
  counted := hs.counted

/-- A session that is over is the helper no longer. -/
theorem Inv.forget (hs : Inv s) {h : Nat} (hover : ∀ x, s.helpers[h]? = some x → x.Over) :
    Inv (s.forget h) := by
  unfold State.forget
  split
  · next hsession =>
    refine ⟨nofun, hs.under_way, hs.ran, hs.asked, hs.in_turn, hs.at_most, fun h' x hx => ?_, hs.counted⟩
    rcases hs.none_left h' x hx with hsome | hx'
    · obtain rfl := Option.some.inj (hsession.symm.trans hsome)
      exact .inr (hover x hx)
    · exact .inr hx'
  · exact hs

theorem Inv.over (hs : Inv s) (h : Nat) {f : Helper → Helper} (hf : ∀ x, (f x).Over)
    (hran : ∀ x, (f x).ran = x.ran) : Inv ({ s with helpers := s.helpers.modify h f }.forget h) := by
  refine (hs.modify h (fun x _ _ => hf x) fun x => ?_).forget fun x' hx' => ?_
  · unfold Helper.attached
    rw [hran]
    exact fun p hp => hp
  · obtain ⟨x, -, rfl⟩ := getElem?_modify_some hx'
    rw [if_pos rfl]
    exact hf x

theorem Inv.enqueue (hs : Inv s) (work : Work ρ) : Inv { s with chain := s.chain ++ [work] } where
  last := hs.last
  under_way pc hpc := by
    obtain ⟨hhelper, w, hw, hprepared⟩ := hs.under_way pc hpc
    exact ⟨hhelper, w, (List.getElem?_append_left (List.getElem?_eq_some_iff.mp hw).1).trans hw, hprepared⟩
  ran := hs.ran
  asked job h hasked := by
    obtain ⟨w, x, hw, hx, hall⟩ := hs.asked job h hasked
    exact ⟨w, x, (List.getElem?_append_left (List.getElem?_eq_some_iff.mp hw).1).trans hw, hx, hall⟩
  in_turn := hs.in_turn
  at_most := hs.at_most
  none_left := hs.none_left
  counted := by
    show _ ≤ (s.chain ++ [work]).length
    rw [List.length_append]
    exact Nat.le_add_right_of_le hs.counted

/-- Where nothing is asked, the asked questions are those of before. -/
theorem Inv.asked_lt (hs : Inv s) (hpc : ∀ h, s.pc ≠ some (.requesting h)) {job h : Nat}
    (hasked : (job, h) ∈ s.asked) : job < s.settled.length := by
  rcases hs.at_most job h hasked with hlt | ⟨-, hat⟩
  · exact hlt
  · exact absurd hat (hpc h)

theorem Inv.turn (hs : Inv s) (hpc : s.pc = none) {w : Work ρ} (hw : s.work = some w) :
    Inv { s.helper.2 with pc := some (.session s.helper.1) } := by
  have hasked : ∀ job h, (job, h) ∈ s.asked → job < s.settled.length := fun job h =>
    hs.asked_lt fun h hsome => absurd (hpc.symm.trans hsome) nofun
  cases hsession : s.session with
  | some h =>
    simp only [State.helper, hsession]
    refine ⟨fun h' hh' => hs.last h' (hsession ▸ hh'), fun pc hpc => ?_, hs.ran, hs.asked, hs.in_turn,
      fun job h hmem => .inl (hasked job h hmem), fun h' x hx => ?_, hs.counted⟩
    · obtain rfl := Option.some.inj hpc
      exact ⟨hs.last h hsession, w, hw, trivial⟩
    · exact hsession ▸ hs.none_left h' x hx
  | none =>
    simp only [State.helper, hsession]
    refine ⟨fun h' hh' => ?_, fun pc hpc => ?_, fun _ _ p hp => absurd hp List.not_mem_nil, fun job h hmem => ?_,
      hs.in_turn, fun job h hmem => .inl (hasked job h hmem), fun h' x hx => ?_, hs.counted⟩
    · obtain rfl := Option.some.inj hh'
      rw [List.length_append]
      rfl
    · obtain rfl := Option.some.inj hpc
      refine ⟨?_, w, hw, trivial⟩
      rw [List.length_append]
      rfl
    · obtain ⟨w', x, hw', hx, hall⟩ := hs.asked job h hmem
      exact ⟨w', x, hw', (List.getElem?_append_left (List.getElem?_eq_some_iff.mp hx).1).trans hx, hall⟩
    · by_cases hlt : h' < s.helpers.length
      · rw [List.getElem?_append_left hlt] at hx
        rcases hs.none_left h' x hx with hsome | hover
        · exact absurd (hsession.symm.trans hsome) nofun
        · exact .inr hover
      · have hlast := (List.getElem?_eq_some_iff.mp hx).1
        rw [List.length_append, List.length_singleton] at hlast
        exact .inl (congrArg some (by omega))

theorem Inv.settle (hs : Inv s) (hpc : s.pc ≠ none) (ok : Bool) : Inv (s.settle ok) where
  last := hs.last
  under_way pc hnone := absurd hnone nofun
  ran := hs.ran
  asked := hs.asked
  in_turn := hs.in_turn
  at_most job h hmem := by
    show job < (s.settled ++ [ok]).length ∨ _
    rw [List.length_append, List.length_singleton]
    rcases hs.at_most job h hmem with hlt | ⟨heq, -⟩
    · exact .inl (by omega)
    · exact .inl (by omega)
  none_left := hs.none_left
  counted := by
    obtain ⟨pc, hsome⟩ := Option.ne_none_iff_exists'.mp hpc
    obtain ⟨-, w, hw, -⟩ := hs.under_way pc hsome
    have hlt := (List.getElem?_eq_some_iff.mp hw).1
    show (s.settled ++ [ok]).length ≤ s.chain.length
    rw [List.length_append, List.length_singleton]
    omega

/-- The work goes on where nothing has been asked for it. -/
theorem Inv.goto (hs : Inv s) {pc pc' : Pc} (hpc : s.pc = some pc) (hask : ∀ h, pc ≠ .requesting h)
    (hhelper : pc'.helper = pc.helper)
    (hprepared : ∀ w, s.work = some w → State.Prepared { s with pc := some pc' } w) :
    Inv { s with pc := some pc' } where
  last := hs.last
  under_way pc'' hpc'' := by
    obtain rfl := Option.some.inj hpc''
    obtain ⟨hlast, w, hw, -⟩ := hs.under_way pc hpc
    exact ⟨hhelper ▸ hlast, w, hw, hprepared w hw⟩
  ran := hs.ran
  asked := hs.asked
  in_turn := hs.in_turn
  at_most job h hmem := .inl (hs.asked_lt (fun h' hh' => hask h' (Option.some.inj (hpc.symm.trans hh'))) hmem)
  none_left := hs.none_left
  counted := hs.counted

theorem Inv.attach (hs : Inv s) {h : Nat} {w : Work ρ} (hpc : s.pc = some (.session h)) (hw : s.work = some w) :
    Inv (s.attach h w) := by
  unfold State.attach
  dsimp only
  have hall : ∀ p ∈ w.state.packages, p ∈ s.attached ∨
      p ∈ w.state.packages.filter fun p => !s.attached.contains p := by
    intro p hp
    by_cases hattached : p ∈ s.attached
    · exact .inl hattached
    · exact .inr (List.mem_filter.mpr ⟨hp, by simpa using hattached⟩)
  split
  · next hnil =>
    refine hs.goto hpc (fun _ => nofun) rfl fun w' hw' => ?_
    obtain rfl := Option.some.inj (hw.symm.trans hw')
    intro p hp
    rcases hall p hp with hattached | hmissing
    · exact hattached
    · rw [hnil] at hmissing
      exact absurd hmissing List.not_mem_nil
  · refine hs.goto hpc (fun _ => nofun) rfl fun w' hw' => ?_
    obtain rfl := Option.some.inj (hw.symm.trans hw')
    exact hall

theorem attached_snoc (x : Helper) (packages : List Text) :
    Helper.attached { x with ran := x.ran ++ [attachCode packages] } = x.attached ++ packages := by
  unfold Helper.attached
  rw [List.flatMap_append, List.flatMap_singleton, attachedBy_attachCode]

/-- The missing packages are attached, in the session that was asked for it. -/
theorem Inv.executed (hs : Inv s) {h : Nat} {missing : List Text} (hpc : s.pc = some (.attaching h missing)) :
    Inv { s with
      attached := s.attached ++ missing
      helpers := s.helpers.modify h fun x => { x with ran := x.ran ++ [attachCode missing] }
      pc := some (.prepared h) } := by
  obtain ⟨hlast, w, hw, hprepared⟩ := hs.under_way _ hpc
  have hpackages : ∀ p ∈ w.state.packages, p ∈ s.attached ∨ p ∈ missing := by
    simpa only [State.Prepared, hpc] using hprepared
  have hmodified := hs.modify h (f := fun x => { x with ran := x.ran ++ [attachCode missing] })
    (fun x _ hx => hx) fun x => by
      rw [attached_snoc]
      exact List.subset_append_left _ _
  refine ⟨hmodified.last, fun pc hpc' => ?_, fun x' hx' p hp => ?_, hmodified.asked, hs.in_turn,
    fun job h' hmem => ?_, hmodified.none_left, hs.counted⟩
  · obtain rfl := Option.some.inj hpc'
    refine ⟨(List.length_modify ..).symm ▸ hlast, w, hw, fun p hp => ?_⟩
    rcases hpackages p hp with hattached | hmissing
    · exact List.mem_append_left _ hattached
    · exact List.mem_append_right _ hmissing
  · rw [List.length_modify] at hx'
    obtain ⟨x, hx, rfl⟩ := getElem?_modify_some hx'
    have hat : h = s.helpers.length - 1 := by
      have hlength : h + 1 = s.helpers.length := hlast
      omega
    rw [if_pos hat, attached_snoc]
    rcases List.mem_append.mp hp with hp | hp
    · exact List.mem_append_left _ (hs.ran x hx p hp)
    · exact List.mem_append_right _ hp
  · exact .inl (hs.asked_lt (fun h'' hh => absurd (hpc.symm.trans hh) nofun) hmem)

theorem Inv.request (hs : Inv s) {h : Nat} (hpc : s.pc = some (.prepared h)) :
    Inv { s with asked := s.asked ++ [(s.settled.length, h)], pc := some (.requesting h) } := by
  obtain ⟨hlast, w, hw, hprepared⟩ := hs.under_way _ hpc
  have hpackages : ∀ p ∈ w.state.packages, p ∈ s.attached := by
    simpa only [State.Prepared, hpc] using hprepared
  have hlt : ∀ job h', (job, h') ∈ s.asked → job < s.settled.length := fun job h' =>
    hs.asked_lt fun h'' hh => absurd (hpc.symm.trans hh) nofun
  refine ⟨hs.last, fun pc hpc' => ?_, hs.ran, fun job h' hmem => ?_, ?_, fun job h' hmem => ?_, hs.none_left,
    hs.counted⟩
  · obtain rfl := Option.some.inj hpc'
    exact ⟨hlast, w, hw, hpackages⟩
  · rcases List.mem_append.mp hmem with hmem | hmem
    · exact hs.asked job h' hmem
    · obtain ⟨rfl, rfl⟩ := Prod.mk.inj (List.mem_singleton.mp hmem)
      have hlength : h' + 1 = s.helpers.length := hlast
      have hin : h' < s.helpers.length := by omega
      have hx : s.helpers[s.helpers.length - 1]? = some s.helpers[h'] := by
        rw [← hlength, Nat.add_sub_cancel, List.getElem?_eq_getElem hin]
      exact ⟨w, s.helpers[h'], hw, List.getElem?_eq_getElem hin, fun p hp => hs.ran _ hx p (hpackages p hp)⟩
  · refine List.pairwise_append.mpr ⟨hs.in_turn, List.pairwise_singleton _ _, fun a ha b hb => ?_⟩
    rw [List.mem_singleton.mp hb]
    exact hlt a.1 a.2 ha
  · rcases List.mem_append.mp hmem with hmem | hmem
    · exact .inl (hlt job h' hmem)
    · obtain ⟨rfl, rfl⟩ := Prod.mk.inj (List.mem_singleton.mp hmem)
      exact .inr ⟨rfl, rfl⟩

theorem Inv.step (hs : Inv s) (e : Event ρ) : Inv (step s e) := by
  cases e with
  | enqueue work => exact hs.enqueue work
  | turn =>
    simp only [RHelper.step]
    split
    · next w hpc hw => exact hs.turn hpc hw
    · exact hs
  | resume =>
    simp only [RHelper.step]
    split
    · next h w hpc hw =>
      split
      · exact hs.attach hpc hw
      · exact hs.settle (hpc ▸ Option.some_ne_none _) false
      · exact hs
    · exact hs
  | executed ok =>
    simp only [RHelper.step]
    split
    · next h missing hpc =>
      split
      · exact hs.executed hpc
      · exact hs.settle (hpc ▸ Option.some_ne_none _) false
    · exact hs
  | request =>
    simp only [RHelper.step]
    split
    · next h w hpc hw =>
      split
      · exact hs.settle (hpc ▸ Option.some_ne_none _) true
      · exact hs.request hpc
    · exact hs
  | replied ok =>
    simp only [RHelper.step]
    split
    · next h hpc => exact hs.settle (hpc ▸ Option.some_ne_none _) ok
    · exact hs
  | started h =>
    simp only [RHelper.step]
    split
    · next hphase =>
      refine hs.modify h (fun x hx hover => ?_) fun x p hp => hp
      rcases hover with hfailed | hover
      · -- it is still starting
        have hstarting : x.phase = .starting := by
          rw [State.phase, hx] at hphase
          exact Option.some.inj hphase
        exact absurd (hstarting.symm.trans hfailed) nofun
      · exact .inr hover
    · exact hs
  | fails h =>
    simp only [RHelper.step]
    split
    · exact hs.over h (fun x => .inl rfl) fun x => rfl
    · exact hs
  | exits h =>
    simp only [RHelper.step]
    split
    · exact hs.over h (fun x => .inr (.inl rfl)) fun x => rfl
    · exact hs
  | stop =>
    simp only [RHelper.step]
    split
    · exact hs
    · next h hsession =>
      have hover := hs.over h (f := fun x => { x with told := true }) (fun x => .inr (.inr rfl)) fun x => rfl
      unfold State.forget at hover
      rwa [if_pos hsession] at hover

/-! ## All calls are settled -/

/-- How far the work under way is. -/
def State.done (s : State ρ) : Nat :=
  match s.pc with
  | none => 0
  | some (.session h) => if s.phase h = some .starting then 1 else 2
  | some (.attaching _ _) => 3
  | some (.prepared _) => 4
  | some (.requesting _) => 5

/-- How many answers it takes at most until all calls are settled. -/
def State.left (s : State ρ) : Nat := 6 * (s.chain.length - s.settled.length) - s.done

theorem done_le (s : State ρ) : s.done ≤ 5 := by
  unfold State.done
  split
  · omega
  · split <;> omega
  · omega
  · omega
  · omega

theorem left_settle (hpc : s.settled.length < s.chain.length) (ok : Bool) : (s.settle ok).left < s.left := by
  have hdone := done_le s
  have hsettled : (s.settle ok).settled.length = s.settled.length + 1 := List.length_append
  show 6 * (s.chain.length - (s.settle ok).settled.length) - 0 < 6 * (s.chain.length - s.settled.length) - s.done
  omega

/-- The work is further than it was. -/
theorem left_further {s' : State ρ} (hpc : s.settled.length < s.chain.length) (hchain : s'.chain = s.chain)
    (hsettled : s'.settled = s.settled) (hdone : s.done < s'.done) : s'.left < s.left := by
  have hle := done_le s'
  unfold State.left
  rw [hchain, hsettled]
  omega

/-- Behind `create`. -/
theorem done_session {s : State ρ} {h : Nat} (hphase : s.phase h ≠ some .starting) (hpc : s.pc = some (.session h)) :
    s.done = 2 := by
  simp only [State.done, hpc, hphase, if_false]

theorem phase_modify {h : Nat} (hin : h < s.helpers.length) (f : Helper → Helper) :
    ((s.helpers.modify h f)[h]?).map Helper.phase = some (f s.helpers[h]).phase := by
  rw [List.getElem?_modify, List.getElem?_eq_getElem hin]
  simp

theorem forget_frame (s : State ρ) (h : Nat) : (s.forget h).chain = s.chain ∧ (s.forget h).settled = s.settled ∧
    (s.forget h).pc = s.pc ∧ (s.forget h).helpers = s.helpers := by
  unfold State.forget
  split <;> exact ⟨rfl, rfl, rfl, rfl⟩

theorem helper_frame (s : State ρ) : s.helper.2.chain = s.chain ∧ s.helper.2.settled = s.settled := by
  unfold State.helper
  split <;> exact ⟨rfl, rfl⟩

/-- `create` settles. -/
theorem left_created {h : Nat} (hlt : s.settled.length < s.chain.length) (hin : h < s.helpers.length)
    (hpc : s.pc = some (.session h)) (hstarting : s.phase h = some .starting) (ok : Bool) :
    (step s (if ok then .started h else .fails h)).left < s.left ∧
      (step s (if ok then .started h else .fails h)).chain = s.chain := by
  have hdone : s.done = 1 := by simp only [State.done, hpc, hstarting, if_true]
  cases ok with
  | true =>
    simp only [if_true, RHelper.step, hstarting, and_true]
    refine left_further hlt rfl rfl ?_
    have hrunning : State.phase { s with helpers := s.helpers.modify h fun x => { x with phase := .running } } h ≠
        some .starting := by
      rw [State.phase, phase_modify hin]
      nofun
    rw [hdone, done_session hrunning hpc]
    omega
  | false =>
    simp only [Bool.false_eq_true, if_false, RHelper.step, hstarting, if_true]
    obtain ⟨hchain, hsettled, hpc', hhelpers⟩ :=
      forget_frame { s with helpers := s.helpers.modify h fun x => { x with phase := .failed } } h
    refine ⟨left_further hlt hchain hsettled ?_, hchain⟩
    have hfailed : (State.forget { s with helpers := s.helpers.modify h fun x => { x with phase := .failed } } h).phase h ≠
        some .starting := by
      rw [State.phase, hhelpers, phase_modify hin]
      nofun
    rw [hdone, done_session hfailed (hpc'.trans hpc)]
    omega

/-- `await this.session` returns, or throws. -/
theorem left_resume {h : Nat} {w : Work ρ} (hlt : s.settled.length < s.chain.length) (hin : h < s.helpers.length)
    (hpc : s.pc = some (.session h)) (hw : s.work = some w) (hstarting : s.phase h ≠ some .starting) :
    (step s .resume).left < s.left ∧ (step s .resume).chain = s.chain := by
  have hdone := done_session hstarting hpc
  have hphase : s.phase h = some s.helpers[h].phase := by
    rw [State.phase, List.getElem?_eq_getElem hin]
    rfl
  simp only [RHelper.step, hpc, hw]
  cases hcase : s.helpers[h].phase with
  | starting => exact absurd (hphase.trans (congrArg some hcase)) hstarting
  | failed =>
    rw [hcase] at hphase
    simp only [hphase, State.settle, and_true]
    exact left_settle hlt false
  | running =>
    rw [hcase] at hphase
    simp only [hphase, State.attach]
    split
    · refine ⟨left_further hlt rfl rfl ?_, rfl⟩
      rw [hdone]
      show 2 < 4
      omega
    · refine ⟨left_further hlt rfl rfl ?_, rfl⟩
      rw [hdone]
      show 2 < 3
      omega

/-- What is waited for happens, one way or the other: less is left. -/
theorem Inv.serve (hs : Inv s) (hlt : s.settled.length < s.chain.length) (ok : Bool) :
    (RHelper.serve s ok).left < s.left ∧ (RHelper.serve s ok).chain = s.chain := by
  obtain ⟨w, hw⟩ : ∃ w, s.work = some w := ⟨_, List.getElem?_eq_getElem hlt⟩
  unfold RHelper.serve State.next
  cases hpc : s.pc with
  | none =>
    obtain ⟨hchain, hsettled⟩ := helper_frame s
    have hdone : s.done = 0 := by simp only [State.done, hpc]
    simp only [RHelper.step, hpc, hw]
    refine ⟨left_further hlt hchain hsettled ?_, hchain⟩
    rw [hdone]
    show 0 < if _ then 1 else 2
    split <;> omega
  | some pc =>
    obtain ⟨hlast, -⟩ := hs.under_way pc hpc
    cases pc with
    | session h =>
      have hin : h < s.helpers.length := by
        have hlength : h + 1 = s.helpers.length := hlast
        omega
      by_cases hstarting : s.phase h = some .starting
      · simp only [hstarting, if_true]
        exact left_created hlt hin hpc hstarting ok
      · simp only [hstarting, if_false]
        exact left_resume hlt hin hpc hw hstarting
    | attaching h missing =>
      have hdone : s.done = 3 := by simp only [State.done, hpc]
      simp only [RHelper.step, hpc]
      split
      · refine ⟨left_further hlt rfl rfl ?_, rfl⟩
        rw [hdone]
        show 3 < 4
        omega
      · exact ⟨left_settle hlt false, rfl⟩
    | prepared h =>
      have hdone : s.done = 4 := by simp only [State.done, hpc]
      simp only [RHelper.step, hpc, hw]
      split
      · exact ⟨left_settle hlt true, rfl⟩
      · refine ⟨left_further hlt rfl rfl ?_, rfl⟩
        rw [hdone]
        show 4 < 5
        omega
    | requesting h =>
      simp only [RHelper.step, hpc]
      exact ⟨left_settle hlt ok, rfl⟩

/-- With nothing left to do, nothing happens. -/
theorem Inv.idle (hs : Inv s) (hall : s.settled.length = s.chain.length) (ok : Bool) : RHelper.serve s ok = s := by
  have hnone : s.work = none := List.getElem?_eq_none (by omega)
  cases hpc : s.pc with
  | none => simp only [RHelper.serve, State.next, RHelper.step, hpc, hnone]
  | some pc =>
    obtain ⟨-, w, hw, -⟩ := hs.under_way pc hpc
    exact absurd (hnone.symm.trans hw) nofun

theorem Inv.settles (hs : Inv s) (answers : List Bool) (hleft : s.left ≤ answers.length) :
    (answers.foldl RHelper.serve s).settled.length = s.chain.length := by
  induction answers generalizing s with
  | nil =>
    have hdone := done_le s
    have hcounted := hs.counted
    rw [List.length_nil] at hleft
    unfold State.left at hleft
    show s.settled.length = s.chain.length
    omega
  | cons ok answers ih =>
    have hnext : Inv (RHelper.serve s ok) := hs.step _
    rw [List.foldl_cons]
    rcases Nat.lt_or_eq_of_le hs.counted with hlt | hall
    · obtain ⟨hless, hchain⟩ := hs.serve hlt ok
      rw [List.length_cons] at hleft
      rw [ih hnext (by omega), hchain]
    · rw [hs.idle hall ok]
      refine ih hs ?_
      unfold State.left
      omega

end Steps

/-! ## The property -/

theorem inv_of_reachable {s : State ρ} (hs : (system ρ).Reachable s) : Inv s := by
  refine System.invariant (fun s hinit => ?_) (fun s e s' _ hs hstep => ?_) s hs
  · rw [hinit]
    exact ⟨nofun, nofun, nofun, nofun, .nil, nofun, nofun, Nat.le_refl _⟩
  · rw [hstep]
    exact hs.step e

/-- **The helper answers what it was asked**: in every state that a run can reach. -/
theorem helper_sound {s : State ρ} (hs : (system ρ).Reachable s) : Sound s := by
  have hinv := inv_of_reachable hs
  refine ⟨hinv.asked, hinv.in_turn, hinv.at_most, hinv.none_left, fun answers hanswers => hinv.settles answers ?_⟩
  unfold State.left
  omega

/-- One question, which finds no helper. -/
def oneQuestion : List (Event Unit) :=
  [.enqueue ⟨⟨["purrr".toList], [], none⟩, some ()⟩, .turn, .started 0, .resume, .executed true, .request,
    .replied true]

theorem helper_sound_asked :
    (oneQuestion.foldl step {}).asked = [(0, 0)] ∧ Sound (oneQuestion.foldl step {}) :=
  ⟨rfl, helper_sound (System.reachable_foldl ({} : State Unit) step oneQuestion)⟩

end Jovian.RHelper
