import Jovian.Lib.Transition
import Mathlib.Data.List.Basic

/-!
# Jovian — an R install looks who uses its packages (`packagesHost.sessionsUsing`)

An install that replaces packages holds the library, and asks the sessions on it what they have
loaded. A session that is starting counts, and one that does not say; a session that is created
meanwhile waits. The sessions are listed first, those that are starting last, and in between the
install awaits the answers. A session that gets from starting to created in between is in neither
list. Nor is one that is being stopped, or whose connection is lost, whose kernel still runs.

R installs lock their library, so that one at a time holds it. The packages session, which installs,
is not among the sessions here.

* **`look_misses_none`** — in every run in which no session is in between (`settled`), an install
  that replaces packages has asked every session on the library whose kernel runs, and none of them
  has one of the packages loaded (`NoneMissed`).
-/

namespace Jovian.HoldThenLook

open Transition (System)

/-! ## Sessions and the install -/

/-- Where a session of the manager is. -/
inductive Phase where
  /-- `createSession` has been called, and looks at the hold. -/
  | asked
  /-- In `starting`. -/
  | starting
  /-- In `sessions`. -/
  | created
  /-- `createSession` has failed. -/
  | failed
deriving DecidableEq

structure Session (K : Type) where
  /-- `firstLibrary` -/
  library : K
  phase : Phase := .asked
  stopped : Bool := false
  /-- Its kernel exited, or the connection was lost. -/
  dead : Bool := false
  /-- Its kernel process runs. -/
  running : Bool := false
  loaded : List String := []
deriving DecidableEq

/-- What a session says it has loaded; `none` is `undefined`. -/
abbrev Answer := Option (List String)

/-- A session that is asked, and what it has answered by now. -/
structure Asked where
  session : Nat
  answer : Option Answer
deriving DecidableEq

/-- Where the install is; `packages` is what it replaces. -/
inductive Install where
  | idle
  | sleeping (packages : List String)
  /-- In `sessionsUsing`. -/
  | asking (packages : List String) (asked : List Asked)
  /-- `sessionsUsing` has returned an empty list. -/
  | replacing (packages : List String) (asked : List Asked)
deriving DecidableEq

structure State (K : Type) where
  sessions : List (Session K) := []
  install : Install := .idle
deriving DecidableEq

inductive Event (K : Type) where
  /-- `createSession` is called. -/
  | create (library : K)
  | look (session : Nat)
  /-- The supervisor starts the kernel. -/
  | spawn (session : Nat)
  /-- The supervisor has created the session. -/
  | created (session : Nat)
  | fails (session : Nat)
  /-- `stop`, `kill` or `disconnect`. -/
  | stop (session : Nat)
  | lost (session : Nat)
  /-- The kernel process ends. -/
  | ends (session : Nat)
  /-- The session's R code loads a package, or unloads one. -/
  | load (session : Nat) (package : String)
  | unload (session : Nat) (package : String)
  /-- R has said what an install would replace. -/
  | plan (packages : List String)
  | hold
  /-- A session answers, or does not say. -/
  | answer (asked : Nat) (tells : Bool)
  /-- `sessionsUsing` returns. -/
  | returns
  /-- The install is over, or given up. -/
  | finish
deriving DecidableEq

def clean (packages loaded : List String) : Bool := loaded.all fun package => package ∉ packages

/-- The session that was asked counts as using the packages. -/
def Asked.uses (packages : List String) (a : Asked) : Bool :=
  match a.answer with
  | some (some loaded) => !clean packages loaded
  | _ => true

def Install.held : Install → Bool
  | .asking _ _ | .replacing _ _ => true
  | _ => false

section

variable {K : Type} [DecidableEq K] (key : K)

/-- What `sessionsUsing` lists: in `sessions`, and not `isStopped`. -/
def Session.listed (x : Session K) : Bool :=
  decide (x.phase = .created) && !(x.stopped || x.dead) && decide (x.library = key)

def onLibrary (sessions : List (Session K)) : List Asked :=
  sessions.zipIdx.filterMap fun (x, i) => if x.listed key then some ⟨i, none⟩ else none

def startingOn (s : State K) : Bool :=
  s.sessions.any fun x => decide (x.phase = .starting) && decide (x.library = key)

namespace State

/-- A session changes. -/
def modify (session : Nat) (f : Session K → Session K) (s : State K) : State K :=
  { s with sessions := s.sessions.modify session f }

end State

def move (source target : Phase) (x : Session K) : Session K :=
  if x.phase = source then { x with phase := target } else x

/-- What a session answers now. -/
def answerOf (s : State K) (session : Nat) (tells : Bool) : Answer :=
  match s.sessions[session]? with
  | some x => if tells && x.running then some x.loaded else none
  | none => none

def step (s : State K) : Event K → State K
  | .create library => { s with sessions := s.sessions ++ [{ library }] }
  | .look i => s.modify i fun x =>
    -- `createSession` sleeps while an install holds the library, and looks again
    if s.install.held && decide (x.library = key) then x else move .asked .starting x
  | .spawn i => s.modify i fun x =>
    if x.phase = .starting then { x with running := true } else x
  -- only a kernel that runs registers
  | .created i => s.modify i fun x => if x.running then move .starting .created x else x
  | .fails i => s.modify i fun x => move .created .failed (move .starting .failed x)
  | .stop i => s.modify i fun x => { x with stopped := true }
  | .lost i => s.modify i fun x => { x with dead := true }
  | .ends i => s.modify i fun x => { x with running := false, loaded := [] }
  | .load i package => s.modify i fun x =>
    if x.running then { x with loaded := package :: x.loaded } else x
  | .unload i package => s.modify i fun x =>
    { x with loaded := x.loaded.filter fun p => p ≠ package }
  | .plan packages =>
    match s.install with
    | .idle => { s with install := .sleeping packages }
    | _ => s
  | .hold =>
    match s.install with
    -- `sessions` is gone through at once; what each answers comes later
    | .sleeping packages => { s with install := .asking packages (onLibrary key s.sessions) }
    | _ => s
  | .answer n tells =>
    match s.install with
    | .asking packages asked =>
      { s with
        install := .asking packages (asked.modify n fun a =>
          if a.answer = none then { a with answer := some (answerOf s a.session tells) } else a) }
    | _ => s
  | .returns =>
    match s.install with
    | .asking packages asked =>
      -- `Promise.all` waits for every answer
      if asked.any fun a => decide (a.answer = none) then s
      -- `starting` is gone through now, when the answers are there
      else if asked.any (Asked.uses packages) || startingOn key s then
        { s with install := .sleeping packages }
      else { s with install := .replacing packages asked }
    | _ => s
  | .finish =>
    match s.install with
    | .asking _ _ => s
    | _ => { s with install := .idle }

def system : System (State K) (Event K) := System.ofFn {} (step key)

/-! ## The property -/

/-- **No session is missed**: while packages are replaced, every session on the library whose kernel
runs has answered that it has none of them, and has none of them. -/
def NoneMissed (s : State K) : Prop :=
  ∀ packages asked, s.install = .replacing packages asked →
    ∀ (i : Nat) x, s.sessions[i]? = some x → x.library = key → x.running = true →
      (∃ loaded, ⟨i, some (some loaded)⟩ ∈ asked ∧ clean packages loaded = true) ∧
      clean packages x.loaded = true

/-- A session that has answered. -/
def answered (asked : List Asked) (session : Nat) : Bool :=
  asked.any fun a => decide (a.session = session) && decide (a.answer ≠ none)

/-- When the sessions are listed, one that is stopped, lost or failed has no kernel any more. While
they are asked, none gets out of starting whose kernel runs. And one that has answered loads none of
the packages until they are replaced. -/
def settled (s : State K) : Event K → Bool
  | .hold => s.sessions.all fun x => !(decide (x.library = key) && x.running) ||
      decide (x.phase = .starting) || x.listed key
  | .created i | .fails i =>
    match s.install with
    | .asking _ _ => s.sessions[i]?.all fun x =>
        !(decide (x.library = key) && x.running && decide (x.phase = .starting))
    | _ => true
  | .load i package =>
    match s.install with
    | .asking packages asked | .replacing packages asked =>
      decide (package ∉ packages) || !answered asked i
    | _ => true
  | _ => true

end

/-! ## Where a session on the library is -/

section

variable {K : Type} (key : K)

/-- While sessions are asked, one whose kernel runs is starting, or it has been asked and will not
be taken for one that has a package it has. While packages are replaced, none is starting. -/
def Accounted : Install → Nat → Session K → Prop
  | .asking packages asked, i, x => x.library = key → x.running = true →
    x.phase = .starting ∨
      ∃ a ∈ asked, a.session = i ∧ (a.uses packages = true ∨ clean packages x.loaded = true)
  | .replacing packages asked, i, x => x.library = key →
    x.phase ≠ .starting ∧ (x.running = true →
      ∃ a ∈ asked, a.session = i ∧ a.uses packages = false ∧ clean packages x.loaded = true)
  | _, _, _ => True

def Inv (s : State K) : Prop :=
  ∀ (i : Nat) x, s.sessions[i]? = some x → Accounted key s.install i x

variable {key} {s : State K} {packages : List String} {asked : List Asked} {install : Install}
  {i : Nat} {x y : Session K}

theorem Inv.modify (hs : Inv key s) {f : Session K → Session K}
    (hf : ∀ x, s.sessions[i]? = some x → Accounted key s.install i x →
      Accounted key s.install i (f x)) : Inv key (s.modify i f) := by
  intro j x hx
  simp only [State.modify, List.getElem?_modify] at hx
  cases hj : s.sessions[j]? with
  | none =>
    rw [hj] at hx
    cases hx
  | some y =>
    rw [hj] at hx
    obtain rfl := Option.some.inj hx
    show Accounted key s.install j _
    dsimp only
    split
    · -- the session that changes
      rename_i heq
      subst heq
      exact hf y hj (hs _ y hj)
    · exact hs j y hj

/-- A session whose kernel does no more than before. -/
theorem Accounted.mono (h : Accounted key install i x) (hlibrary : y.library = x.library)
    (hphase : y.phase = x.phase) (hrunning : y.running = true → x.running = true)
    (hclean : ∀ packages asked,
      install = .asking packages asked ∨ install = .replacing packages asked →
      ∀ a ∈ asked, a.session = i → a.uses packages = false →
        clean packages x.loaded = true → clean packages y.loaded = true) :
    Accounted key install i y := by
  cases install with
  | idle => trivial
  | sleeping packages => trivial
  | asking packages asked =>
    intro hkey hrun
    rw [hlibrary] at hkey
    -- it is still starting, or still who was asked
    rcases h hkey (hrunning hrun) with hstarting | ⟨a, ha, hi, huses⟩
    · exact .inl (hphase.trans hstarting)
    · refine .inr ⟨a, ha, hi, ?_⟩
      rcases Bool.eq_false_or_eq_true (a.uses packages) with hu | hu
      · exact .inl hu
      · refine .inr (hclean _ _ (.inl rfl) a ha hi hu (huses.resolve_left ?_))
        rw [hu]
        exact Bool.false_ne_true
  | replacing packages asked =>
    intro hkey
    rw [hlibrary] at hkey
    obtain ⟨hnot, hasked⟩ := h hkey
    refine ⟨hphase ▸ hnot, fun hrun => ?_⟩
    obtain ⟨a, ha, hi, hu, hold⟩ := hasked (hrunning hrun)
    exact ⟨a, ha, hi, hu, hclean _ _ (.inr rfl) a ha hi hu hold⟩

/-- The hold is none of its business. -/
theorem accounted_of_free (h : install.held = true → x.library ≠ key) :
    Accounted key install i x := by
  cases install with
  | idle => trivial
  | sleeping packages => trivial
  | asking packages asked => exact fun hkey => absurd hkey (h rfl)
  | replacing packages asked => exact fun hkey => absurd hkey (h rfl)

theorem inv_of_free (h : s.install.held = false) : Inv key s := by
  intro i x _
  refine accounted_of_free fun hheld => ?_
  rw [h] at hheld
  cases hheld

/-! ## What a session does -/

theorem Inv.stop (hs : Inv key s) (i : Nat) :
    Inv key (s.modify i fun x => { x with stopped := true }) :=
  hs.modify fun _ _ h => h.mono rfl rfl id fun _ _ _ _ _ _ _ hclean => hclean

theorem Inv.lost (hs : Inv key s) (i : Nat) :
    Inv key (s.modify i fun x => { x with dead := true }) :=
  hs.modify fun _ _ h => h.mono rfl rfl id fun _ _ _ _ _ _ _ hclean => hclean

theorem Inv.ends (hs : Inv key s) (i : Nat) :
    Inv key (s.modify i fun x => { x with running := false, loaded := [] }) :=
  hs.modify fun _ _ h => h.mono rfl rfl (fun hrun => by cases hrun) fun _ _ _ _ _ _ _ _ => rfl

theorem Inv.unload (hs : Inv key s) (i : Nat) (package : String) :
    Inv key (s.modify i fun x => { x with loaded := x.loaded.filter fun p => p ≠ package }) := by
  refine hs.modify fun x _ h => h.mono rfl rfl id ?_
  intro packages asked _ a _ _ _ hclean
  rw [clean, List.all_eq_true] at hclean ⊢
  exact fun p hp => hclean p (List.mem_of_mem_filter hp)

theorem Inv.spawn (hs : Inv key s) (i : Nat) :
    Inv key (s.modify i fun x => if x.phase = .starting then { x with running := true } else x) := by
  refine hs.modify fun x _ h => ?_
  split
  · rename_i hstarting
    cases hinstall : s.install with
    | idle => trivial
    | sleeping packages => trivial
    | asking packages asked => exact fun _ _ => .inl hstarting
    | replacing packages asked =>
      rw [hinstall] at h
      exact fun hkey => absurd hstarting (h hkey).1
  · exact h

/-- A session that is not starting while others are asked goes elsewhere. -/
theorem Accounted.leave (h : Accounted key install i x) {phase : Phase} (hphase : phase ≠ .starting)
    (hleave : ∀ packages asked, install = .asking packages asked → x.library = key →
      x.running = true → x.phase ≠ .starting) :
    Accounted key install i { x with phase } := by
  cases install with
  | idle => trivial
  | sleeping packages => trivial
  | asking packages asked =>
    exact fun hkey hrun => .inr ((h hkey hrun).resolve_left (hleave _ _ rfl hkey hrun))
  | replacing packages asked => exact fun hkey => ⟨hphase, (h hkey).2⟩

theorem move_library (source target : Phase) (x : Session K) :
    (move source target x).library = x.library := by
  unfold move
  split <;> rfl

variable [DecidableEq K]

/-- A session on a library that is held does not get to start. -/
theorem Inv.look (hs : Inv key s) (i : Nat) :
    Inv key (s.modify i fun x =>
      if s.install.held && decide (x.library = key) then x else move .asked .starting x) := by
  refine hs.modify fun x _ h => ?_
  split
  · exact h
  · rename_i hfree
    refine accounted_of_free fun hheld => ?_
    rw [move_library]
    simpa [hheld] using hfree

theorem Inv.created (hs : Inv key s) {i : Nat} (hsettled : settled key s (.created i) = true) :
    Inv key (s.modify i fun x => if x.running then move .starting .created x else x) := by
  refine hs.modify fun x hx h => ?_
  split
  · unfold move
    split
    · refine h.leave (by decide) ?_
      intro packages asked hinstall hkey hrun
      simpa [settled, hinstall, hx, hkey, hrun] using hsettled
    · exact h
  · exact h

theorem Inv.fails (hs : Inv key s) {i : Nat} (hsettled : settled key s (.fails i) = true) :
    Inv key (s.modify i fun x => move .created .failed (move .starting .failed x)) := by
  refine hs.modify fun x hx h => ?_
  have hleave : ∀ packages asked, s.install = .asking packages asked → x.library = key →
      x.running = true → x.phase ≠ .starting := by
    intro packages asked hinstall hkey hrun
    simpa [settled, hinstall, hx, hkey, hrun] using hsettled
  unfold move
  split
  · exact h.leave (by decide) hleave
  · split
    · exact h.leave (by decide) hleave
    · exact h

theorem Inv.load (hs : Inv key s) {i : Nat} {package : String}
    (hsettled : settled key s (.load i package) = true) :
    Inv key (s.modify i fun x =>
      if x.running then { x with loaded := package :: x.loaded } else x) := by
  refine hs.modify fun x hx h => ?_
  split
  · refine h.mono rfl rfl id ?_
    intro packages asked hinstall a ha hi huses hclean
    -- it has said what it has loaded, so it loads no package that is replaced
    have hanswered : answered asked i = true := by
      refine List.any_eq_true.mpr ⟨a, ha, ?_⟩
      have hanswer : a.answer ≠ none := by
        intro hnone
        rw [Asked.uses, hnone] at huses
        cases huses
      simp [hi, hanswer]
    have hother : package ∉ packages := by
      rcases hinstall with hinstall | hinstall <;>
        simpa [settled, hinstall, hanswered] using hsettled
    simpa [clean, hother] using hclean
  · exact h

/-! ## What the install does -/

/-- Who is not listed is starting, or has no kernel any more. -/
theorem Inv.hold (hsettled : settled key s .hold = true) :
    Inv key { s with install := .asking packages (onLibrary key s.sessions) } := by
  intro i x hx hkey hrun
  have hx' := List.all_eq_true.mp hsettled x (List.mem_of_getElem? hx)
  simp only [hkey, hrun, decide_true, Bool.and_self, Bool.not_true, Bool.false_or,
    Bool.or_eq_true, decide_eq_true_eq] at hx'
  refine hx'.imp_right fun hlisted => ⟨⟨i, none⟩, ?_, rfl, .inl rfl⟩
  refine List.mem_filterMap.mpr ⟨(x, i), List.mem_zipIdx_iff_getElem?.mpr hx, ?_⟩
  simp [hlisted]

omit [DecidableEq K] in
/-- What a session says it has loaded is what it has loaded. -/
theorem Inv.answer (hs : Inv key s) (hinstall : s.install = .asking packages asked) (n : Nat)
    (tells : Bool) :
    Inv key { s with install := .asking packages (asked.modify n fun a =>
      if a.answer = none then { a with answer := some (answerOf s a.session tells) } else a) } := by
  intro i x hx hkey hrun
  have h := hs i x hx
  rw [hinstall] at h
  refine (h hkey hrun).imp_right fun ⟨a, ha, hi, huses⟩ => ?_
  obtain ⟨m, hm⟩ := List.mem_iff_getElem?.mp ha
  by_cases hnew : n = m ∧ a.answer = none
  · -- this is the answer that comes
    obtain ⟨rfl, hnone⟩ := hnew
    refine ⟨{ a with answer := some (answerOf s a.session tells) }, ?_, hi, ?_⟩
    · refine List.mem_iff_getElem?.mpr ⟨n, ?_⟩
      rw [List.getElem?_modify_eq, hm]
      simp [hnone]
    · have hanswer : answerOf s a.session tells = if tells then some x.loaded else none := by
        rw [answerOf, hi, hx]
        simp [hrun]
      rw [hanswer]
      cases tells with
      -- it does not say, and counts
      | false => exact .inl rfl
      | true =>
        show (!clean packages x.loaded) = true ∨ _
        cases clean packages x.loaded with
        | false => exact .inl rfl
        | true => exact .inr rfl
  · refine ⟨a, ?_, hi, huses⟩
    refine List.mem_iff_getElem?.mpr ⟨m, ?_⟩
    rw [List.getElem?_modify, hm]
    -- another's answer comes, or one to a question that was answered
    by_cases hnm : n = m
    · have hsome : a.answer ≠ none := fun hnone => hnew ⟨hnm, hnone⟩
      simp [hnm, hsome]
    · simp [hnm]

/-- `sessionsUsing` returns an empty list. -/
theorem Inv.replace (hs : Inv key s) (hinstall : s.install = .asking packages asked)
    (huses : asked.any (Asked.uses packages) = false) (hstarting : startingOn key s = false) :
    Inv key { s with install := .replacing packages asked } := by
  intro i x hx hkey
  have h := hs i x hx
  rw [hinstall] at h
  -- `starting` was empty of them when it was gone through
  have hnot : x.phase ≠ .starting := by
    intro hphase
    have hx' := List.any_eq_false.mp hstarting x (List.mem_of_getElem? hx)
    simp [hphase, hkey] at hx'
  refine ⟨hnot, fun hrun => ?_⟩
  obtain ⟨a, ha, hi, hclean⟩ := (h hkey hrun).resolve_left hnot
  have hfalse := List.any_eq_false.mp huses a ha
  exact ⟨a, ha, hi, Bool.eq_false_iff.mpr hfalse, hclean.resolve_left hfalse⟩

theorem Inv.step (hs : Inv key s) {e : Event K} (hsettled : settled key s e = true) :
    Inv key (step key s e) := by
  cases e with
  | look i => exact hs.look i
  | spawn i => exact hs.spawn i
  | created i => exact hs.created hsettled
  | fails i => exact hs.fails hsettled
  | stop i => exact hs.stop i
  | lost i => exact hs.lost i
  | ends i => exact hs.ends i
  | load i package => exact hs.load hsettled
  | unload i package => exact hs.unload i package
  | create library =>
    intro i x hx
    simp only [HoldThenLook.step, List.getElem?_append] at hx
    split at hx
    · exact hs i x hx
    · -- it has no kernel, and is not starting
      obtain rfl := List.mem_singleton.mp (List.mem_of_getElem? hx)
      show Accounted key s.install i _
      cases s.install with
      | idle => trivial
      | sleeping packages => trivial
      | asking packages asked => exact fun _ hrun => by cases hrun
      | replacing packages asked =>
        exact fun _ => ⟨fun h => (by cases h), fun hrun => (by cases hrun)⟩
  | plan packages =>
    simp only [HoldThenLook.step]
    split
    · exact inv_of_free rfl
    · exact hs
  | hold =>
    simp only [HoldThenLook.step]
    split
    · exact .hold hsettled
    · exact hs
  | answer n tells =>
    simp only [HoldThenLook.step]
    split
    · rename_i hinstall
      exact hs.answer hinstall n tells
    · exact hs
  | returns =>
    simp only [HoldThenLook.step]
    split
    · rename_i packages asked hinstall
      split
      · exact hs
      · split
        · exact inv_of_free rfl
        · rename_i hnone
          obtain ⟨huses, hstarting⟩ := by simpa using hnone
          exact hs.replace hinstall (by simpa using huses) hstarting
    · exact hs
  | finish =>
    simp only [HoldThenLook.step]
    split
    · exact hs
    · exact inv_of_free rfl

omit [DecidableEq K] in
theorem Inv.noneMissed (hs : Inv key s) : NoneMissed key s := by
  intro packages asked hinstall i x hx hkey hrun
  have h := hs i x hx
  rw [hinstall] at h
  obtain ⟨⟨session, answer⟩, ha, rfl, huses, hclean⟩ := (h hkey).2 hrun
  refine ⟨?_, hclean⟩
  match answer, huses with
  | some (some loaded), huses => exact ⟨loaded, ha, by simpa [Asked.uses] using huses⟩

/-- **The look misses no session**, in every run in which none is in between. -/
theorem look_misses_none (key : K) :
    ∀ s, ((system key).when fun s e => settled key s e = true).Reachable s → NoneMissed key s := by
  intro s hs
  apply Inv.noneMissed
  exact System.invariant_ofFn (inv_of_free rfl) (fun _ _ hs hsettled => hs.step hsettled) hs

end

/-- An install waits for a session that has loaded the package, until it has been stopped and its
kernel has ended. Another has not loaded it, and a third waits. -/
def replaced : List (Event Unit) :=
  [.create (), .look 0, .spawn 0, .created 0, .load 0 "dplyr",
   .create (), .look 1, .spawn 1, .created 1,
   .plan ["dplyr"], .hold, .create (), .look 2, .answer 0 true, .answer 1 true, .returns,
   .stop 0, .ends 0, .hold, .answer 0 true, .returns, .look 2]

theorem look_misses_none_replaced :
    ∃ s : State Unit, NoneMissed () s ∧
      s.install = .replacing ["dplyr"] [⟨1, some (some [])⟩] := by
  refine ⟨replaced.foldl (step ()) {}, ?_, by decide⟩
  apply look_misses_none
  apply System.reachable_of_allSteps
  decide

/-- A session that loads the package as it starts gets to created while others are asked. -/
def missedMoving : List (Event Unit) :=
  [.create (), .look 0, .spawn 0, .load 0 "dplyr", .plan ["dplyr"], .hold, .created 0, .returns]

/-- A session that has loaded the package is being stopped. -/
def missedStopping : List (Event Unit) :=
  [.create (), .look 0, .spawn 0, .created 0, .load 0 "dplyr", .stop 0, .plan ["dplyr"], .hold,
   .returns]

theorem look_misses :
    (∃ s : State Unit, (system ()).Reachable s ∧ s.install = .replacing ["dplyr"] [] ∧
      s.sessions = [⟨(), .created, false, false, true, ["dplyr"]⟩]) ∧
    ∃ s : State Unit, (system ()).Reachable s ∧ s.install = .replacing ["dplyr"] [] ∧
      s.sessions = [⟨(), .created, true, false, true, ["dplyr"]⟩] :=
  ⟨⟨missedMoving.foldl (step ()) {}, System.reachable_foldl .., by decide, by decide⟩,
    ⟨missedStopping.foldl (step ()) {}, System.reachable_foldl .., by decide, by decide⟩⟩

end Jovian.HoldThenLook
