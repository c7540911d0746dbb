import Jovian.Kernel.DisplayList

/-!
# PlotsFollow — which plots a cell sends (`.jv.graphics.changed`, `.jv.repl.cell_done`)

What is looked at in a cell that is not silent: the ends of its expressions at which the page is
complete, and its own end. A plot that is found waits until one is found that does not add to it.

* `looked_lookAt` — what one more look does to what is sent and what waits.
* `looked_evaluate` — expression by expression, every end at which the page is complete is looked at.
* **`plots_follow`** — in every run of cells that meet `Meets`, each cell's plots are its own.
-/

namespace Jovian.RGraphics

variable {α : Type}

/-! ## Where a cell is looked at -/

/-- Where the expressions of a cell leave the device. -/
def deviceAfter : List (Expression α) → Option (Device α) → Option (Device α)
  | [], device => device
  | e :: es, device =>
    let device := e.drawings.foldl Device.draw device
    if e.outcome = .evaluated then deviceAfter es device else device

/-- The device where it is looked at, and whether it is the current one there. -/
structure End (α : Type) where
  device : Option (Device α)
  current : Bool
deriving DecidableEq

/-- The ends of expressions at which the page is complete. -/
def pageEnds : List (Expression α) → Option (Device α) → List (End α)
  | [], _ => []
  | e :: es, device =>
    let device := e.drawings.foldl Device.draw device
    (if e.outcome ≠ .failed ∧ e.look.complete then [⟨device, e.look.current⟩] else []) ++
      if e.outcome = .evaluated then pageEnds es device else []

/-- And the end of the cell. -/
def ends (c : Cell α) (device : Option (Device α)) : List (End α) :=
  pageEnds c.expressions device ++ [⟨deviceAfter c.expressions device, c.look.current⟩]

/-! ## What is to be sent -/

/-- Plots, each with its page, that are those of some looks; `before` is the device before them. -/
structure PlotsOf (before : Option (Device α)) (looks : List (End α)) (plots : List (List (Entry α) × Nat)) :
    Prop where
  /-- In the order of the pages, and of each page once. -/
  ordered : plots.Pairwise fun p q => p.2 < q.2
  looked : ∀ p ∈ plots, ∃ e ∈ looks, shows e.device = some (p.2, drawn p.1)
  /-- What was drawn on a page, as it was when last looked at. -/
  shown : ∀ pre e post page plot, looks = pre ++ e :: post → shows e.device = some (page, plot) →
    shows e.device ≠ shows before → (∀ l ∈ post, ∀ later, shows l.device ≠ some (page, later)) →
      ∃ p ∈ plots, p.2 = page ∧ drawn p.1 = plot

/-- A cell's plots are its own. -/
structure Follows (before : Option (Device α)) (ends : List (End α)) (sent : List (List (Entry α))) : Prop where
  /-- Nothing of a cell that does not change what the device shows. -/
  unchanged : (∀ e ∈ ends, shows e.device = shows before) → sent = []
  plots : ∃ plots, sent = plots.map Prod.fst ∧ PlotsOf before ends plots

/-- The device at the last look of some, or at the one before. -/
def lastSeen (seen : Option (Device α)) (looks : List (End α)) : Option (Device α) :=
  (looks.getLast?.map End.device).getD seen

/-- What a cell has to meet; `seen` is the device at the last look before it. -/
structure Meets (seen before : Option (Device α)) (ends : List (End α)) : Prop where
  /-- It changes what the device shows, or finds it as it was looked at. -/
  looked : (∃ e ∈ ends, shows e.device ≠ shows before) ∨ shows seen = shows before
  /-- No other device is the current one where this one shows something new. -/
  current : ∀ pre e post, ends = pre ++ e :: post → e.current ∨ shows e.device = shows (lastSeen seen pre)
  /-- No page is looked at before anything is drawn on it, but for the first. -/
  begun : ∀ pre e post, ends = pre ++ e :: post → shows e.device = none → shows (lastSeen seen pre) = none
  /-- No page begins with all that waits of the page before. -/
  apart : ∀ pre a mid b post, ends = pre ++ a :: (mid ++ b :: post) →
    shows a.device ≠ shows (lastSeen seen pre) → (∀ m ∈ mid, shows m.device = shows a.device) →
      ∀ d e, a.device = some d → b.device = some e → d.page ≠ e.page → ¬ d.entries <+: e.entries

/-- The device, and how it was when last looked at. -/
structure World (α : Type) where
  device : Option (Device α) := none
  seen : Option (Device α) := none
deriving DecidableEq

def World.after (w : World α) (c : Cell α) : World α where
  device := deviceAfter c.expressions w.device
  seen := if c.silent then w.seen else deviceAfter c.expressions w.device

theorem before_deviceAfter (es : List (Expression α)) (device : Option (Device α)) :
    Before device (deviceAfter es device) := by
  induction es generalizing device with
  | nil => exact Before.refl _
  | cons e es ih =>
    rw [deviceAfter]
    split
    · exact (before_drawings _ _).trans (ih _)
    · exact before_drawings _ _

theorem before_pageEnds {es : List (Expression α)} {device : Option (Device α)} {e : End α}
    (h : e ∈ pageEnds es device) : Before device e.device := by
  induction es generalizing device with
  | nil => cases h
  | cons x es ih =>
    rw [pageEnds, List.mem_append] at h
    rcases h with h | h
    · split at h
      · rw [List.mem_singleton.1 h]
        exact before_drawings _ _
      · cases h
    · split at h
      · exact (before_drawings _ _).trans (ih h)
      · cases h

theorem before_ends {c : Cell α} {device : Option (Device α)} {e : End α} (h : e ∈ ends c device) :
    Before device e.device := by
  rcases List.mem_append.1 h with h | h
  · exact before_pageEnds h
  · rw [List.mem_singleton.1 h]
    exact before_deviceAfter _ _

/-! ## A cell's looks -/

theorem lastSeen_nil (seen : Option (Device α)) : lastSeen seen [] = seen := rfl

theorem lastSeen_append (seen : Option (Device α)) (looks : List (End α)) (e : End α) :
    lastSeen seen (looks ++ [e]) = e.device := by
  simp [lastSeen]

/-- What it shows is what it showed before the looks, or at one of them. -/
theorem lastSeen_cases (seen : Option (Device α)) (looks : List (End α)) :
    lastSeen seen looks = seen ∨ ∃ e ∈ looks, lastSeen seen looks = e.device := by
  unfold lastSeen
  cases h : looks.getLast? with
  | none => exact .inl rfl
  | some e => exact .inr ⟨e, List.mem_of_getLast? h, rfl⟩

/-- The plots of the pages before `page`. -/
structure SentBefore (before : Option (Device α)) (looks : List (End α)) (plots : List (List (Entry α) × Nat))
    (page : Nat) : Prop where
  ordered : plots.Pairwise fun p q => p.2 < q.2
  earlier : ∀ p ∈ plots, p.2 < page
  looked : ∀ p ∈ plots, ∃ e ∈ looks, shows e.device = some (p.2, drawn p.1)
  shown : ∀ pre e post p plot, looks = pre ++ e :: post → shows e.device = some (p, plot) →
    shows e.device ≠ shows before → (∀ l ∈ post, ∀ later, shows l.device ≠ some (p, later)) → p ≠ page →
      ∃ q ∈ plots, q.2 = p ∧ drawn q.1 = plot

/-- After some looks: nothing was found yet, or what was found last at `a` waits to be sent. -/
inductive Waits (seen before : Option (Device α)) (looks : List (End α)) (s : State α) : Prop where
  | nothing (hplot : s.cellPlot = none) (hsent : s.sent = [])
      (hshows : ∀ e ∈ looks, shows e.device = shows seen)
  | plot {pre mid : List (End α)} {a : End α} {d : Device α} {plots : List (List (Entry α) × Nat)} (hlooks : looks = pre ++ a :: mid)
      (hdevice : a.device = some d) (hplot : s.cellPlot = some d.entries)
      (hfound : shows a.device ≠ shows (lastSeen seen pre)) (hdrawn : drawn d.entries ≠ [])
      (hmid : ∀ m ∈ mid, shows m.device = shows a.device) (hgrown : Before (some d) (lastSeen seen looks))
      (hsent : s.sent = plots.map Prod.fst) (hbefore : SentBefore before looks plots d.page)

/-- What holds between two looks. -/
structure Looked (seen before : Option (Device α)) (looks : List (End α)) (s : State α) : Prop where
  remembers : Remembers s (lastSeen seen looks)
  grown : Before (lastSeen seen looks) s.device
  waits : Waits seen before looks s

/-- Where the same list is cut twice, the second cut is not behind the first, or it is in what follows. -/
theorem mem_of_cuts {β : Type} {pre mid pre' post : List β} {a e : β} (h : pre ++ a :: mid = pre' ++ e :: post) :
    e ∈ a :: mid ∨ a ∈ post := by
  rcases List.append_eq_append_iff.1 h with ⟨xs, _, h⟩ | ⟨xs, _, h⟩
  · exact .inl (h ▸ List.mem_append_right _ (List.mem_cons_self ..))
  · cases xs with
    | nil => exact .inl (by rw [(List.cons.inj h).1]; exact List.mem_cons_self ..)
    | cons x xs =>
      rw [List.cons_append] at h
      exact .inr ((List.cons.inj h).2 ▸ List.mem_append_right _ (List.mem_cons_self ..))

section
variable {seen before : Option (Device α)} {looks : List (End α)} {s : State α}

/-- The last look at a page shows what waits, where it is the page of what waits. -/
theorem shows_waiting {pre mid pre' post : List (End α)} {a e : End α} {d : Device α} {plot : List (Entry α)}
    (hlooks : pre ++ a :: mid = pre' ++ e :: post) (hdevice : a.device = some d) (hdrawn : drawn d.entries ≠ [])
    (hmid : ∀ m ∈ mid, shows m.device = shows a.device) (he : shows e.device = some (d.page, plot))
    (hlast : ∀ l ∈ post, ∀ later, shows l.device ≠ some (d.page, later)) : drawn d.entries = plot := by
  have ha : shows a.device = some (d.page, drawn d.entries) := hdevice ▸ shows_of_drawn hdrawn
  rcases mem_of_cuts hlooks with h | h
  · have hsame : shows e.device = shows a.device := by
      rcases List.mem_cons.1 h with heq | hm
      · rw [heq]
      · exact hmid e hm
    rw [he, ha] at hsame
    simpa using hsame.symm
  · exact absurd ha (hlast a h _)

/-- A cut of the looks with one more behind: at that one, or before it. -/
theorem cut_append {e x : End α} {pre post : List (End α)} (h : looks ++ [e] = pre ++ x :: post) :
    x = e ∨ ∃ post', post = post' ++ [e] ∧ looks = pre ++ x :: post' := by
  rcases List.eq_nil_or_concat post with hpost | ⟨post', y, hpost⟩
  · rw [hpost] at h
    obtain ⟨_, hx⟩ := List.append_inj' h rfl
    exact .inl (List.cons.inj hx).1.symm
  · rw [hpost, List.concat_eq_append, ← List.cons_append, ← List.append_assoc] at h
    obtain ⟨hlooks, hy⟩ := List.append_inj' h rfl
    exact .inr ⟨post', by rw [hpost, List.concat_eq_append, (List.cons.inj hy).1], hlooks⟩

theorem looked_append {looks : List (End α)} {plots : List (List (Entry α) × Nat)} (e : End α)
    (h : ∀ p ∈ plots, ∃ x ∈ looks, shows x.device = some (p.2, drawn p.1)) :
    ∀ p ∈ plots, ∃ x ∈ looks ++ [e], shows x.device = some (p.2, drawn p.1) := by
  intro p hp
  obtain ⟨x, hx, hshows⟩ := h p hp
  exact ⟨x, List.mem_append_left _ hx, hshows⟩

/-- One more plot, of a page after all others. -/
theorem ordered_append {plots : List (List (Entry α) × Nat)} {d : Device α}
    (h : plots.Pairwise fun p q => p.2 < q.2) (hearlier : ∀ p ∈ plots, p.2 < d.page) :
    (plots ++ [(d.entries, d.page)]).Pairwise fun p q => p.2 < q.2 := by
  rw [List.pairwise_append]
  exact ⟨h, List.pairwise_singleton _ _, fun p hp q hq => List.mem_singleton.1 hq ▸ hearlier p hp⟩

/-- One more look, at the page that waits. -/
theorem SentBefore.append {page : Nat} {e : End α} {plots : List (List (Entry α) × Nat)}
    (h : SentBefore before looks plots page) (he : ∀ p plot, shows e.device = some (p, plot) → p = page) :
    SentBefore before (looks ++ [e]) plots page where
  ordered := h.ordered
  earlier := h.earlier
  looked := looked_append e h.looked
  shown := by
    intro pre x post p plot heq hx hne hlast hp
    rcases cut_append heq with hxe | ⟨post', hpost, hlooks⟩
    · cases hxe
      exact absurd (he p plot hx) hp
    · refine h.shown pre x post' p plot hlooks hx hne (fun l hl => hlast l ?_) hp
      rw [hpost]
      exact List.mem_append_left _ hl

theorem lastSeen_found {pre mid : List (End α)} {a : End α} (seen : Option (Device α))
    (hmid : ∀ m ∈ mid, shows m.device = shows a.device) : shows (lastSeen seen (pre ++ a :: mid)) = shows a.device := by
  rcases List.eq_nil_or_concat mid with hnil | ⟨mid', m, hcons⟩
  · rw [hnil, lastSeen_append]
  · have hm : m ∈ mid := by simp [hcons]
    have hassoc : pre ++ a :: mid = (pre ++ a :: mid') ++ [m] := by simp [hcons]
    rw [hassoc, lastSeen_append]
    exact hmid m hm

/-- A look that finds nothing. -/
theorem waits_same {e : End α} {s' : State α} (h : Waits seen before looks s) (hplot : s'.cellPlot = s.cellPlot)
    (hsent : s'.sent = s.sent) (hgrown : Before (lastSeen seen looks) e.device)
    (hsame : shows e.device = shows (lastSeen seen looks)) : Waits seen before (looks ++ [e]) s' := by
  cases h with
  | nothing hnone hnil hshows =>
    refine .nothing (hplot.trans hnone) (hsent.trans hnil) fun x hx => ?_
    rcases List.mem_append.1 hx with hx | hx
    · exact hshows x hx
    · rw [List.mem_singleton.1 hx, hsame]
      rcases lastSeen_cases seen looks with hlast | ⟨y, hy, hlast⟩
      · rw [hlast]
      · rw [hlast, hshows y hy]
  | @plot pre mid a d plots hlooks hdevice hcell hfound hdrawn hmid hd hplots hbefore =>
    have hea : shows e.device = shows a.device := by rw [hsame, hlooks, lastSeen_found seen hmid]
    have hcut : looks ++ [e] = pre ++ a :: (mid ++ [e]) := by
      rw [hlooks]
      simp
    refine .plot hcut hdevice (hplot.trans hcell) hfound hdrawn (fun m hm => ?_) ?_ (hsent.trans hplots) ?_
    · rcases List.mem_append.1 hm with hm | hm
      · exact hmid m hm
      · rw [List.mem_singleton.1 hm, hea]
    · rw [lastSeen_append]
      exact hd.trans hgrown
    · refine hbefore.append fun p plot hp => ?_
      rw [hea, hdevice, shows_of_drawn hdrawn, Option.some.injEq, Prod.mk.injEq] at hp
      exact hp.1.symm

/-- The page of what waits is done: it is sent, and `e` is of a page after it. -/
theorem sentBefore_next {pre mid : List (End α)} {a e : End α} {d next : Device α}
    {plots : List (List (Entry α) × Nat)} (h : SentBefore before looks plots d.page)
    (hlooks : looks = pre ++ a :: mid) (hdevice : a.device = some d) (hdrawn : drawn d.entries ≠ [])
    (hmid : ∀ m ∈ mid, shows m.device = shows a.device) (hnext : e.device = some next)
    (hlt : d.page < next.page) :
    SentBefore before (looks ++ [e]) (plots ++ [(d.entries, d.page)]) next.page where
  ordered := ordered_append h.ordered h.earlier
  earlier := by
    intro p hp
    rcases List.mem_append.1 hp with hp | hp
    · exact Nat.lt_trans (h.earlier p hp) hlt
    · exact List.mem_singleton.1 hp ▸ hlt
  looked := by
    intro p hp
    rcases List.mem_append.1 hp with hp | hp
    · exact looked_append e h.looked p hp
    · refine ⟨a, by rw [hlooks]; simp, ?_⟩
      rw [List.mem_singleton.1 hp, hdevice, shows_of_drawn hdrawn]
  shown := by
    intro pre' x post p plot heq hx hne hlast hp
    rcases cut_append heq with hxe | ⟨post', hpost, hcut⟩
    · rw [hxe, hnext] at hx
      obtain ⟨y, hy, hpage, _⟩ := shows_eq_some hx
      cases hy
      exact absurd hpage.symm hp
    · have hlater : ∀ l ∈ post', ∀ later, shows l.device ≠ some (p, later) := fun l hl =>
        hlast l (hpost ▸ List.mem_append_left _ hl)
      cases hpd : decide (p = d.page) with
      | true =>
        cases of_decide_eq_true hpd
        refine ⟨(d.entries, d.page), List.mem_append_right _ (List.mem_singleton.2 rfl), rfl, ?_⟩
        exact shows_waiting (hlooks.symm.trans hcut) hdevice hdrawn hmid hx hlater
      | false =>
        obtain ⟨q, hq, hqplot⟩ := h.shown pre' x post' p plot hcut hx hne hlater (of_decide_eq_false hpd)
        exact ⟨q, List.mem_append_left _ hq, hqplot⟩

/-- Before anything was found, no page but the one from before shows anything. -/
theorem sentBefore_first {e : End α} {next : Device α} (hseen : Before seen before)
    (hlooks : ∀ x ∈ looks, Before before x.device) (hshows : ∀ x ∈ looks, shows x.device = shows seen)
    (hnext : e.device = some next) : SentBefore before (looks ++ [e]) [] next.page where
  ordered := List.Pairwise.nil
  earlier := nofun
  looked := nofun
  shown := by
    intro pre x post p plot heq hx hne _ hp
    rcases cut_append heq with hxe | ⟨post', _, hcut⟩
    · rw [hxe, hnext] at hx
      obtain ⟨y, hy, hpage, _⟩ := shows_eq_some hx
      cases hy
      exact absurd hpage.symm hp
    · have hmem : x ∈ looks := hcut ▸ List.mem_append_right _ (List.mem_cons_self ..)
      have hbefore := shows_between hseen (hlooks x hmem) ((hshows x hmem).symm.trans hx) hx
      exact absurd (hx.trans hbefore.symm) hne

/-! ## Drawing -/

theorem looked_draw (h : Looked seen before looks s) (d : Drawing α) : Looked seen before looks (s.draw d) := by
  have hdevice : (s.draw d).device = Device.draw s.device d := by
    unfold State.draw
    split <;> rfl
  constructor
  · -- where the device is opened only now, there was no look at it
    unfold State.draw
    split
    · next hnone =>
      obtain ⟨l, hl, _⟩ := h.remembers
      have hgrown := h.grown
      rw [Option.isNone_iff_eq_none.1 hnone] at hgrown
      have hseen : lastSeen seen looks = none := by
        cases hlast : lastSeen seen looks with
        | none => rfl
        | some x =>
          rw [hlast] at hgrown
          exact hgrown.elim
      rw [hseen]
      exact ⟨none, trivial, rfl, rfl, rfl⟩
    · exact h.remembers
  · rw [hdevice]
    exact h.grown.trans (before_draw _ _)
  · have hplot : (s.draw d).cellPlot = s.cellPlot := by
      unfold State.draw
      split <;> rfl
    have hsent : (s.draw d).sent = s.sent := by
      unfold State.draw
      split <;> rfl
    cases h.waits with
    | nothing hnone hnil hshows => exact .nothing (hplot.trans hnone) (hsent.trans hnil) hshows
    | plot hlooks ha hcell hfound hdrawn hmid hgrown hplots hbefore =>
      exact .plot hlooks ha (hplot.trans hcell) hfound hdrawn hmid hgrown (hsent.trans hplots) hbefore

theorem draw_device (ds : List (Drawing α)) (s : State α) :
    (ds.foldl State.draw s).device = ds.foldl Device.draw s.device := by
  induction ds generalizing s with
  | nil => rfl
  | cons d ds ih =>
    rw [List.foldl_cons, List.foldl_cons, ih]
    unfold State.draw
    split <;> rfl

theorem looked_drawings (h : Looked seen before looks s) (ds : List (Drawing α)) :
    Looked seen before looks (ds.foldl State.draw s) := by
  induction ds generalizing s with
  | nil => exact h
  | cons d ds ih => exact ih (looked_draw h d)

/-! ## The first look and the last -/

/-- Between two cells. -/
structure Kept (w : World α) (s : State α) : Prop where
  device_eq : s.device = w.device
  remembers : Remembers s w.seen
  grown : Before w.seen w.device

theorem looked_start {w : World α} {s : State α} (h : Kept w s) :
    Looked w.seen w.device [] { s with cellPlot := none, sent := [] } where
  remembers := h.remembers
  grown := h.device_eq ▸ h.grown
  waits := .nothing rfl rfl nofun

/-- What waits at the end is the last of what is sent. -/
theorem follows_done {looks : List (End α)} (h : Waits seen before looks s) (hseen : Before seen before)
    (hlooks : ∀ x ∈ looks, Before before x.device) (hmeets : Meets seen before looks) :
    Follows before looks (s.sent ++ s.cellPlot.toList) := by
  cases h with
  | nothing hnone hnil hshows =>
    rw [hnone, hnil]
    refine ⟨fun _ => rfl, [], rfl, List.Pairwise.nil, nofun, ?_⟩
    intro pre e post page plot heq he hne _
    have hmem : e ∈ looks := heq ▸ List.mem_append_right _ (List.mem_cons_self ..)
    have hbefore := shows_between hseen (hlooks e hmem) ((hshows e hmem).symm.trans he) he
    exact absurd (he.trans hbefore.symm) hne
  | @plot pre mid a d plots hcut hdevice hcell hfound hdrawn hmid _ hplots hbefore =>
    rw [hcell, hplots]
    have ha : a ∈ looks := hcut ▸ List.mem_append_right _ (List.mem_cons_self ..)
    constructor
    · -- something was found, so the device did not show the same at every look
      intro hunchanged
      refine absurd ?_ hfound
      rw [hunchanged a ha]
      rcases lastSeen_cases seen pre with hlast | ⟨x, hx, hlast⟩
      · rw [hlast]
        rcases hmeets.looked with ⟨e, he, hne⟩ | hsame
        · exact absurd (hunchanged e he) hne
        · exact hsame.symm
      · rw [hlast, hunchanged x (hcut ▸ List.mem_append_left _ hx)]
    · refine ⟨plots ++ [(d.entries, d.page)], by simp, ordered_append hbefore.ordered hbefore.earlier, ?_, ?_⟩
      · intro p hp
        rcases List.mem_append.1 hp with hp | hp
        · exact hbefore.looked p hp
        · refine ⟨a, ha, ?_⟩
          rw [List.mem_singleton.1 hp, hdevice, shows_of_drawn hdrawn]
      · intro pre' e post page plot heq he hne hlast
        cases hpd : decide (page = d.page) with
        | true =>
          cases of_decide_eq_true hpd
          refine ⟨(d.entries, d.page), List.mem_append_right _ (List.mem_singleton.2 rfl), rfl, ?_⟩
          exact shows_waiting (hcut.symm.trans heq) hdevice hdrawn hmid he hlast
        | false =>
          obtain ⟨q, hq, hplot⟩ := hbefore.shown pre' e post page plot heq he hne hlast (of_decide_eq_false hpd)
          exact ⟨q, List.mem_append_left _ hq, hplot⟩

/-! ## One look more -/

variable [DecidableEq α]

theorem lookAt_same (incomplete : Bool) (look : Look) {last : Option (Device α)} (hremembers : Remembers s last)
    (hbefore : Before last s.device) (hsame : shows s.device = shows last) :
    Noted s (lookAt incomplete look s) s.device := by
  have hunchanged : Noted s s s.device := ⟨rfl, rfl, rfl, hremembers.mono hbefore hsame.symm⟩
  unfold lookAt
  cases hdevice : s.device with
  | none =>
    have hnone : snapshot incomplete look s = (none, s) := by
      unfold snapshot
      rw [hdevice]
    rw [hnone, ← hdevice]
    exact hunchanged
  | some d =>
    cases htaken : decide (Taken incomplete look) with
    | false =>
      rw [snapshot_not_taken (of_decide_eq_false htaken), ← hdevice]
      exact hunchanged
    | true =>
      rw [hdevice] at hbefore hsame
      obtain ⟨hplot, hnoted⟩ := snapshot_taken (of_decide_eq_true htaken) hdevice hremembers hbefore
        fun hblank => hsame ▸ hblank
      rw [if_pos hsame] at hplot
      split
      · next heq =>
        rw [heq] at hplot
        cases hplot
      · next heq =>
        rw [heq] at hnoted
        exact hnoted

theorem lookAt_changed {incomplete : Bool} {look : Look} {last : Option (Device α)} {d : Device α}
    (htaken : Taken incomplete look) (hdevice : s.device = some d) (hremembers : Remembers s last)
    (hbefore : Before last (some d)) (hblank : shows (some d) = none → shows last = none)
    (hne : shows (some d) ≠ shows last) :
    ∃ s', Noted s s' (some d) ∧ lookAt incomplete look s = s'.changed d.entries := by
  obtain ⟨hplot, hnoted⟩ := snapshot_taken htaken hdevice hremembers hbefore hblank
  rw [if_neg hne] at hplot
  refine ⟨_, hnoted, ?_⟩
  unfold lookAt
  split
  · next plot s' heq =>
    rw [heq] at hplot ⊢
    cases hplot
    rfl
  · next heq =>
    rw [heq] at hplot
    cases hplot

/-- A look that finds a plot. -/
theorem waits_changed {e : End α} {next : Device α} {s' : State α} (h : Waits seen before looks s)
    (hplot : s'.cellPlot = s.cellPlot) (hsent : s'.sent = s.sent) (hseen : Before seen before)
    (hlooks : ∀ x ∈ looks, Before before x.device) (hnext : e.device = some next)
    (hgrown : Before (lastSeen seen looks) (some next)) (hdrawn : drawn next.entries ≠ [])
    (hne : shows e.device ≠ shows (lastSeen seen looks))
    (hapart : ∀ pre a mid, looks = pre ++ a :: mid → shows a.device ≠ shows (lastSeen seen pre) →
      (∀ m ∈ mid, shows m.device = shows a.device) →
        ∀ d, a.device = some d → d.page ≠ next.page → ¬ d.entries <+: next.entries) :
    Waits seen before (looks ++ [e]) (s'.changed next.entries) := by
  have hself : Before (some next) (lastSeen seen (looks ++ [e])) := by
    rw [lastSeen_append, hnext]
    exact Before.refl _
  cases h with
  | nothing hnone hnil hshows =>
    have hbuilds : buildsUpon s'.cellPlot next.entries = true := by
      rw [hplot, hnone]
      rfl
    unfold State.changed
    rw [if_pos hbuilds]
    exact .plot (show looks ++ [e] = looks ++ e :: [] from rfl) hnext rfl hne hdrawn nofun hself
      (show s'.sent = [].map Prod.fst from hsent.trans hnil) (sentBefore_first hseen hlooks hshows hnext)
  | @plot pre mid a d plots hcut hdevice hcell hfound hd hmid hdgrown hplots hbefore =>
    have hdnext := hdgrown.trans hgrown
    unfold State.changed
    rw [hplot, hcell]
    rcases hdnext with hlt | ⟨hpage, hprefix⟩
    · -- a new page, which does not begin with all that waits
      have hnot : ¬ buildsUpon (some d.entries) next.entries = true := fun hbuilds =>
        hapart pre a mid hcut hfound hmid d hdevice (by omega) (buildsUpon_some.1 hbuilds)
      rw [if_neg hnot]
      refine .plot (show looks ++ [e] = looks ++ e :: [] from rfl) hnext rfl hne hdrawn nofun hself ?_
        (sentBefore_next hbefore hcut hdevice hd hmid hnext hlt)
      show s'.sent ++ [d.entries] = _
      rw [hsent, hplots, List.map_append]
      rfl
    · -- more on the page that waits
      rw [if_pos (buildsUpon_some.2 hprefix)]
      refine .plot (show looks ++ [e] = looks ++ e :: [] from rfl) hnext rfl hne hdrawn nofun hself
        (hsent.trans hplots) ?_
      rw [← hpage]
      refine hbefore.append fun p plot hp => ?_
      rw [hnext, shows_of_drawn hdrawn, Option.some.injEq, Prod.mk.injEq] at hp
      omega

/-- **One look more**, of those that are made. -/
theorem looked_lookAt {incomplete : Bool} {look : Look} (post : List (End α)) (h : Looked seen before looks s)
    (hpage : incomplete ∨ look.complete) (hseen : Before seen before)
    (hlooks : ∀ x ∈ looks, Before before x.device)
    (hmeets : Meets seen before (looks ++ ⟨s.device, look.current⟩ :: post)) :
    Looked seen before (looks ++ [⟨s.device, look.current⟩]) (lookAt incomplete look s) := by
  have hcurrent := hmeets.current looks _ post rfl
  have hblank := hmeets.begun looks _ post rfl
  cases hsame : decide (shows s.device = shows (lastSeen seen looks)) with
  | true =>
    have heq := of_decide_eq_true hsame
    have hnoted := lookAt_same incomplete look h.remembers h.grown heq
    constructor
    · rw [lastSeen_append]
      exact hnoted.remembers
    · rw [lastSeen_append, hnoted.device_eq]
      exact Before.refl _
    · exact waits_same h.waits hnoted.cellPlot_eq hnoted.sent_eq h.grown heq
  | false =>
    have hne := of_decide_eq_false hsame
    have htaken : Taken incomplete look := ⟨hcurrent.resolve_right hne, hpage⟩
    cases hdevice : s.device with
    | none =>
      rw [hdevice] at hne hblank
      exact absurd (hblank rfl).symm hne
    | some d =>
      rw [hdevice] at hne hblank
      have hgrown : Before (lastSeen seen looks) (some d) := hdevice ▸ h.grown
      have hdrawn : drawn d.entries ≠ [] := by
        intro hnil
        have hnone := shows_of_blank hnil
        exact hne (hnone.trans (hblank hnone).symm)
      obtain ⟨s', hnoted, heq⟩ := lookAt_changed htaken hdevice h.remembers hgrown hblank hne
      rw [heq]
      have hchanged : (s'.changed d.entries).device = some d := by
        unfold State.changed
        split <;> exact hnoted.device_eq.trans hdevice
      have hremembers : Remembers (s'.changed d.entries) (some d) := by
        unfold State.changed
        split <;> exact hnoted.remembers
      constructor
      · rw [lastSeen_append]
        exact hremembers
      · rw [lastSeen_append, hchanged]
        exact Before.refl _
      · refine waits_changed h.waits hnoted.cellPlot_eq hnoted.sent_eq hseen hlooks rfl hgrown hdrawn hne ?_
        intro pre a mid hcut hfound hmid x hx hp
        refine hmeets.apart pre a mid ⟨s.device, look.current⟩ post ?_ hfound hmid x d hx hdevice hp
        rw [hcut]
        simp

/-! ## Expressions -/

theorem lookAt_device (incomplete : Bool) (look : Look) (s : State α) :
    (lookAt incomplete look s).device = s.device := by
  have hsnapshot : (snapshot incomplete look s).2.device = s.device := by
    unfold snapshot
    split
    · rfl
    · simp only
      split_ifs <;> rfl
  unfold lookAt
  split
  · next heq =>
    rw [heq] at hsnapshot
    unfold State.changed
    split <;> exact hsnapshot
  · next heq =>
    rw [heq] at hsnapshot
    exact hsnapshot

/-- The end of an expression that was evaluated, where its page may be complete. -/
theorem looked_afterExpression {look : Look} (post : List (End α)) (h : Looked seen before looks s)
    (hseen : Before seen before) (hlooks : ∀ x ∈ looks, Before before x.device)
    (hmeets : Meets seen before
      (looks ++ (if look.complete then [⟨s.device, look.current⟩] else []) ++ post)) :
    Looked seen before (looks ++ if look.complete then [⟨s.device, look.current⟩] else [])
      (afterExpression look s) := by
  cases hcomplete : look.complete with
  | true =>
    rw [hcomplete] at hmeets
    simp only [if_true, List.append_assoc, List.singleton_append] at hmeets ⊢
    exact looked_lookAt post h (.inr hcomplete) hseen hlooks hmeets
  | false =>
    have hnot : ¬ Taken false look := by simp [Taken, hcomplete]
    simp only [Bool.false_eq_true, if_false, List.append_nil]
    unfold afterExpression lookAt
    rw [snapshot_not_taken hnot]
    exact h

/-- **Expression by expression**: every end at which the page is complete is looked at. -/
theorem looked_evaluate (es : List (Expression α)) (post : List (End α)) (h : Looked seen before looks s)
    (hseen : Before seen before) (hlooks : ∀ x ∈ looks, Before before x.device) (hdevice : Before before s.device)
    (hmeets : Meets seen before (looks ++ pageEnds es s.device ++ post)) :
    Looked seen before (looks ++ pageEnds es s.device) (evaluate false es s) ∧
      (evaluate false es s).device = deviceAfter es s.device := by
  induction es generalizing looks s with
  | nil =>
    rw [pageEnds, List.append_nil]
    exact ⟨h, rfl⟩
  | cons e es ih =>
    have hdrawn := looked_drawings h e.drawings
    have heq := draw_device e.drawings s
    have hgrown : Before before (e.drawings.foldl State.draw s).device :=
      heq ▸ hdevice.trans (before_drawings _ _)
    rw [pageEnds, ← heq] at hmeets ⊢
    rw [deviceAfter, ← heq, evaluate]
    cases houtcome : e.outcome with
    | failed =>
      simp only [ne_eq, not_true_eq_false, false_and, if_false, reduceCtorEq, List.append_nil]
      exact ⟨hdrawn, trivial⟩
    | failedPrinting =>
      simp only [houtcome, ne_eq, reduceCtorEq, not_false_eq_true, true_and, if_false, List.append_nil] at hmeets ⊢
      refine ⟨looked_afterExpression post hdrawn hseen hlooks hmeets, ?_⟩
      exact lookAt_device _ _ _
    | evaluated =>
      simp only [houtcome, ne_eq, reduceCtorEq, not_false_eq_true, true_and, if_true] at hmeets ⊢
      have hlook := looked_afterExpression (pageEnds es (e.drawings.foldl State.draw s).device ++ post) hdrawn
        hseen hlooks (by simpa only [List.append_assoc] using hmeets)
      have hsame := lookAt_device false e.look (e.drawings.foldl State.draw s)
      have hrest := ih (s := checkGraphics false e.look (e.drawings.foldl State.draw s)) hlook ?_ ?_ ?_
      · rw [show (checkGraphics false e.look (e.drawings.foldl State.draw s)).device = _ from hsame] at hrest
        rw [← List.append_assoc]
        exact hrest
      · intro x hx
        rcases List.mem_append.1 hx with hx | hx
        · exact hlooks x hx
        · split at hx
          · rw [List.mem_singleton.1 hx]
            exact hgrown
          · cases hx
      · rw [show (checkGraphics false e.look (e.drawings.foldl State.draw s)).device = _ from hsame]
        exact hgrown
      · rw [show (checkGraphics false e.look (e.drawings.foldl State.draw s)).device = _ from hsame]
        simpa only [List.append_assoc] using hmeets

/-! ## Cells -/

theorem evaluate_silent (es : List (Expression α)) (s : State α) :
    (evaluate true es s).device = deviceAfter es s.device ∧ (evaluate true es s).sent = s.sent ∧
      ∀ {seen before : Option (Device α)} {looks : List (End α)}, Looked seen before looks s →
        Looked seen before looks (evaluate true es s) := by
  induction es generalizing s with
  | nil => exact ⟨rfl, rfl, id⟩
  | cons e es ih =>
    have hsent : (e.drawings.foldl State.draw s).sent = s.sent := by
      induction e.drawings generalizing s with
      | nil => rfl
      | cons d ds ih =>
        rw [List.foldl_cons, ih]
        unfold State.draw
        split <;> rfl
    rw [evaluate, deviceAfter, ← draw_device]
    cases houtcome : e.outcome with
    | evaluated =>
      obtain ⟨hdevice, hrest, hlooked⟩ := ih (e.drawings.foldl State.draw s)
      rw [if_pos rfl]
      exact ⟨hdevice, hrest.trans hsent, fun h => hlooked (looked_drawings h _)⟩
    | failed => exact ⟨rfl, hsent, fun h => looked_drawings h _⟩
    | failedPrinting => exact ⟨rfl, hsent, fun h => looked_drawings h _⟩

theorem kept_silent {w : World α} {s : State α} {c : Cell α} (h : Kept w s) (hsilent : c.silent = true) :
    Kept (w.after c) (runCell s c) ∧ (runCell s c).sent = [] := by
  obtain ⟨hdevice, hsent, hlooked⟩ := evaluate_silent c.expressions { s with cellPlot := none, sent := [] }
  have hgrown := (hlooked (looked_start h)).grown
  rw [hdevice] at hgrown
  simp only [runCell, World.after, hsilent, if_true]
  refine ⟨⟨hdevice.trans (h.device_eq ▸ rfl), (hlooked (looked_start h)).remembers, ?_⟩, hsent⟩
  rw [← h.device_eq]
  exact hgrown

theorem follows_cell {w : World α} {s : State α} {c : Cell α} (h : Kept w s) (hsilent : c.silent = false)
    (hmeets : Meets w.seen w.device (ends c w.device)) :
    Kept (w.after c) (runCell s c) ∧ Follows w.device (ends c w.device) (runCell s c).sent := by
  have hstart := looked_start h
  have hbefore := h.grown
  simp only [World.after, hsilent, Bool.false_eq_true, if_false]
  rw [← h.device_eq] at hmeets hstart hbefore ⊢
  obtain ⟨hlooked, hdevice⟩ := looked_evaluate c.expressions
    [⟨deviceAfter c.expressions s.device, c.look.current⟩] hstart hbefore nofun (Before.refl _) hmeets
  rw [List.nil_append] at hlooked
  have hdone := looked_lookAt [] hlooked (.inl rfl) hbefore
    (fun x hx => before_pageEnds hx) (by rw [hdevice]; exact hmeets)
  rw [hdevice] at hdone
  have hsame := (lookAt_device true c.look _).trans hdevice
  have hfollows := follows_done hdone.waits hbefore (fun x hx => before_ends hx) hmeets
  have hremembers := hdone.remembers
  rw [lastSeen_append] at hremembers
  simp only [runCell, hsilent, Bool.false_eq_true, if_false]
  exact ⟨⟨hsame, hremembers, Before.refl _⟩, hfollows⟩

end

/-! ## Runs -/

/-- What a cell sends, where a silent one sends nothing. -/
def Own (w : World α) (c : Cell α) (sent : List (List (Entry α))) : Prop :=
  if c.silent then sent = [] else Follows w.device (ends c w.device) sent

/-- A silent cell has nothing to meet. -/
def Fair (w : World α) (c : Cell α) : Prop :=
  c.silent = false → Meets w.seen w.device (ends c w.device)

variable [DecidableEq α]

theorem own_cell {w : World α} {s : State α} {c : Cell α} (h : Kept w s) (hfair : Fair w c) :
    Kept (w.after c) (runCell s c) ∧ Own w c (runCell s c).sent := by
  unfold Own
  cases hsilent : c.silent with
  | true => exact kept_silent h hsilent
  | false => exact follows_cell h hsilent (hfair hsilent)

theorem own_run {cells : List (Cell α)} {w : World α} {s : State α} (h : Kept w s)
    (hfair : ∀ pre c post, cells = pre ++ c :: post → Fair (pre.foldl World.after w) c) :
    ∀ pre c post, cells = pre ++ c :: post →
      Own (pre.foldl World.after w) c (runCell (pre.foldl runCell s) c).sent := by
  induction cells generalizing w s with
  | nil =>
    intro pre c post heq
    simp at heq
  | cons x cells ih =>
    obtain ⟨hkept, hown⟩ := own_cell h (hfair [] x cells rfl)
    intro pre c post heq
    cases pre with
    | nil =>
      cases heq
      exact hown
    | cons y pre =>
      obtain ⟨hy, hcells⟩ := List.cons.inj heq
      subst hy
      exact ih hkept (fun pre c post heq => hfair (x :: pre) c post (by rw [heq]; rfl)) pre c post hcells

/-- **In every run of cells that meet the conditions, each sends the plots it drew**, those that were
replaced and the one it ends with, in the order of their pages and of each page once. -/
theorem plots_follow {cells : List (Cell α)}
    (hfair : ∀ pre c post, cells = pre ++ c :: post → Fair (pre.foldl World.after {}) c) :
    ∀ pre c post, cells = pre ++ c :: post →
      Own (pre.foldl World.after {}) c (runCell (pre.foldl runCell {}) c).sent :=
  own_run ⟨rfl, ⟨none, trivial, rfl, rfl, rfl⟩, trivial⟩ hfair

/-! ## Cells that do, and cells that do not -/

/-- At the end of an expression that draws on the device. -/
def complete : Look := ⟨true, true⟩

/-- `plot(1)`, on a new page. -/
def plotOne : Expression Nat := ⟨[.newPage, .entry ⟨some "C_plotXY", 1⟩], .evaluated, complete⟩

/-- `abline(2)` -/
def abline : Expression Nat := ⟨[.entry ⟨some "C_abline", 2⟩], .evaluated, complete⟩

def grownCell : Cell Nat := ⟨false, [plotOne, abline], complete⟩

theorem grownCell_fair : Fair {} grownCell := by
  intro _
  have hall : ∀ e ∈ ends grownCell none, e.current = true ∧ shows e.device ≠ none ∧
      e.device.map Device.page = some 1 := by decide
  constructor
  · exact .inl ⟨_, List.mem_append_right _ (List.mem_singleton.2 rfl), by decide⟩
  · exact fun pre e post heq => .inl (hall e (heq ▸ by simp)).1
  · exact fun pre e post heq hnone => absurd hnone (hall e (heq ▸ by simp)).2.1
  · intro pre a mid b post heq _ _ d e hd he hne
    -- there is one page
    have ha := (hall a (heq ▸ by simp)).2.2
    have hb := (hall b (heq ▸ by simp)).2.2
    rw [hd] at ha
    rw [he] at hb
    exact absurd (Option.some.inj (ha.trans hb.symm)) hne

theorem plots_follow_grownCell : Own {} grownCell (runCell {} grownCell).sent := by
  refine @plots_follow Nat _ [grownCell] ?_ [] grownCell [] rfl
  intro pre c post heq
  cases pre with
  | nil =>
    cases heq
    exact grownCell_fair
  | cons x pre => simp at heq

/-- The same plot twice. -/
def twiceCell : Cell Nat := ⟨false, [plotOne, plotOne], complete⟩

def silentCell : Cell Nat := ⟨true, [plotOne], complete⟩

def emptyCell : Cell Nat := ⟨false, [], complete⟩

/-- The device with the plot on its page `page`. -/
def onPage (page : Nat) : End Nat := ⟨some ⟨page, [⟨some "C_plotXY", 1⟩]⟩, true⟩

/-- Of two pages that draw the same one is sent; and a silent cell's plot is sent by the next. -/
theorem one_of_two_pages :
    ¬ Own {} twiceCell (runCell {} twiceCell).sent ∧
      ¬ Own (World.after {} silentCell) emptyCell (runCell (runCell {} silentCell) emptyCell).sent := by
  constructor
  · intro h
    have hends : ends twiceCell none = [onPage 1, onPage 2, onPage 2] := by decide
    have hsent : (runCell {} twiceCell).sent = [[⟨some "C_plotXY", 1⟩]] := by decide
    have hfollows : Follows none (ends twiceCell none) (runCell {} twiceCell).sent := h
    rw [hends, hsent] at hfollows
    obtain ⟨plots, hone, hplots⟩ := hfollows.plots
    have hlater : ∀ l ∈ [onPage 2, onPage 2], ∀ later, shows l.device ≠ some (1, later) := by
      intro l hl later hshows
      have hpage : ∀ l ∈ [onPage 2, onPage 2], (shows l.device).map Prod.fst = some 2 := by decide
      have hl := hpage l hl
      rw [hshows] at hl
      cases hl
    obtain ⟨p, hp, hp1, _⟩ := hplots.shown [] (onPage 1) _ 1 [⟨some "C_plotXY", 1⟩] rfl (by decide) (by decide) hlater
    obtain ⟨q, hq, hq2, _⟩ :=
      hplots.shown [onPage 1, onPage 2] (onPage 2) [] 2 [⟨some "C_plotXY", 1⟩] rfl (by decide) (by decide) nofun
    -- a plot for each page, where one was sent
    obtain ⟨x, hx⟩ : ∃ x, plots = [x] := by
      have hlength := congrArg List.length hone
      rw [List.length_map] at hlength
      exact List.length_eq_one_iff.1 hlength.symm
    rw [hx, List.mem_singleton] at hp hq
    rw [hp] at hp1
    rw [hq, hp1] at hq2
    cases hq2
  · intro h
    have hfollows : Follows (World.after {} silentCell).device (ends emptyCell (World.after {} silentCell).device)
        (runCell (runCell {} silentCell) emptyCell).sent := h
    exact absurd (hfollows.unchanged (by decide)) (by decide)

end Jovian.RGraphics
