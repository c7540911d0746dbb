import Jovian.Kernel.RGraphics

/-!
# DisplayList — what the session's device shows (`.jv.graphics.snapshot`)

hera remembers an identity and a snapshot from its last look at the device; it compares the one, and
of the snapshot what is drawn.

* `shows_between` — what is shown before and after is shown in between, as a device only grows.
* `sameAsLast_iff` — that no page is new and the snapshot draws the same says the device shows the same.
* **`snapshot_taken`** — a look finds a plot exactly where the device shows something else than at the
  last one.
-/

namespace Jovian.RGraphics

variable {α : Type}

/-! ## What the device shows -/

/-- What a display list draws. -/
def drawn (entries : List (Entry α)) : List (Entry α) := entries.filter isVisual

/-- The page and what is drawn on it, where something is. -/
def shows (device : Option (Device α)) : Option (Nat × List (Entry α)) :=
  device.bind fun d => if drawn d.entries = [] then none else some (d.page, drawn d.entries)

/-! ## A device only grows -/

/-- Another page, or more on this one. -/
def Before : Option (Device α) → Option (Device α) → Prop
  | none, _ => True
  | some _, none => False
  | some a, some b => a.page < b.page ∨ a.page = b.page ∧ a.entries <+: b.entries

theorem Before.refl (device : Option (Device α)) : Before device device := by
  cases device with
  | none => trivial
  | some d => exact .inr ⟨rfl, List.prefix_refl _⟩

theorem Before.trans {a b c : Option (Device α)} (h : Before a b) (h' : Before b c) : Before a c := by
  cases a with
  | none => trivial
  | some a =>
    cases b with
    | none => exact h.elim
    | some b =>
      cases c with
      | none => exact h'.elim
      | some c =>
        rcases h with h | ⟨h, hp⟩ <;> rcases h' with h' | ⟨h', hp'⟩
        · exact .inl (by omega)
        · exact .inl (by omega)
        · exact .inl (by omega)
        · exact .inr ⟨by omega, hp.trans hp'⟩

theorem before_draw (device : Option (Device α)) (d : Drawing α) : Before device (Device.draw device d) := by
  cases device with
  | none => trivial
  | some device =>
    cases d with
    | entry e => exact .inr ⟨rfl, List.prefix_append ..⟩
    | newPage => exact .inl (Nat.lt_succ_self _)

theorem before_drawings (ds : List (Drawing α)) (device : Option (Device α)) :
    Before device (ds.foldl Device.draw device) := by
  induction ds generalizing device with
  | nil => exact Before.refl _
  | cons d ds ih => exact (before_draw device d).trans (ih _)

theorem shows_eq_some {device : Option (Device α)} {page : Nat} {plot : List (Entry α)}
    (h : shows device = some (page, plot)) : ∃ d, device = some d ∧ d.page = page ∧ drawn d.entries = plot := by
  obtain ⟨d, hd, hshows⟩ := Option.bind_eq_some_iff.1 h
  split at hshows
  · cases hshows
  · cases hshows
    exact ⟨d, hd, rfl, rfl⟩

theorem drawn_begins {a b : List (Entry α)} (h : a <+: b) : drawn a <+: drawn b := h.filter _

/-- What is shown before and after is shown in between. -/
theorem shows_between {a b c : Option (Device α)} (hab : Before a b) (hbc : Before b c)
    {v : Nat × List (Entry α)} (ha : shows a = some v) (hc : shows c = some v) : shows b = some v := by
  obtain ⟨x, rfl, hxp, hx⟩ := shows_eq_some ha
  obtain ⟨z, rfl, hzp, hz⟩ := shows_eq_some hc
  cases b with
  | none => exact hab.elim
  | some y =>
    -- all three are of one page
    obtain ⟨hxy, hxye⟩ : x.page = y.page ∧ x.entries <+: y.entries := by
      rcases hab with h | h
      · rcases hbc with h' | ⟨h', _⟩ <;> omega
      · exact h
    have hyze : y.entries <+: z.entries := by
      rcases hbc with h | ⟨_, h⟩
      · omega
      · exact h
    have heq : drawn y.entries = v.2 := by
      apply List.IsPrefix.eq_of_length_le
      · exact hz ▸ drawn_begins hyze
      · exact hx ▸ (drawn_begins hxye).length_le
    have hne : v.2 ≠ [] := by
      intro hnil
      rw [shows, Option.bind_some, hx, if_pos hnil] at ha
      cases ha
    rw [shows, Option.bind_some, heq, if_neg hne, ← hxy, hxp]

/-! ## One look -/

/-- hera remembers the device of a look after which the device showed nothing else until `seen`. -/
def Remembers (s : State α) (seen : Option (Device α)) : Prop :=
  ∃ l, Before l seen ∧ shows l = shows seen ∧ s.lastDisplayList = l.map displayListId ∧
    s.lastSnapshot.map drawn = (shows l).map Prod.snd

theorem Remembers.mono {s : State α} {a b : Option (Device α)} (h : Remembers s a) (hab : Before a b)
    (hshows : shows a = shows b) : Remembers s b := by
  obtain ⟨l, hl, hsame, hlist, hsnapshot⟩ := h
  exact ⟨l, hl.trans hab, hsame.trans hshows, hlist, hsnapshot⟩

theorem shows_of_drawn {d : Device α} (h : drawn d.entries ≠ []) : shows (some d) = some (d.page, drawn d.entries) := by
  rw [shows, Option.bind_some, if_neg h]

theorem shows_of_blank {d : Device α} (h : drawn d.entries = []) : shows (some d) = none := by
  rw [shows, Option.bind_some, if_pos h]

/-- A display list of one identity draws the same. -/
theorem shows_of_displayListId {a b : Device α} (h : Before (some a) (some b))
    (hid : displayListId a = displayListId b) : shows (some a) = shows (some b) := by
  obtain ⟨hhead, hlength⟩ := Prod.mk.inj hid
  cases ha : a.entries with
  | nil =>
    have hb : b.entries = [] := List.eq_nil_of_length_eq_zero (by rw [← hlength, ha]; rfl)
    rw [shows_of_blank (by rw [ha]; rfl), shows_of_blank (by rw [hb]; rfl)]
  | cons x xs =>
    have hane : a.entries ≠ [] := by simp [ha]
    have hbne : b.entries ≠ [] := by
      intro hb
      rw [ha, hb] at hlength
      cases hlength
    rw [if_neg hane, if_neg hbne, Option.some.injEq] at hhead
    have hprefix : a.entries <+: b.entries := by
      rcases h with h | ⟨_, h⟩
      · omega
      · exact h
    rw [shows, shows, Option.bind_some, Option.bind_some, hprefix.eq_of_length hlength, hhead]

theorem any_isVisual {entries : List (Entry α)} : entries.any isVisual = true ↔ drawn entries ≠ [] := by
  rw [List.any_eq_true, drawn, Ne, List.filter_eq_nil_iff]
  simp

section
variable [DecidableEq α]

theorem drawsSame_iff {old new : List (Entry α)} : drawsSame old new = true ↔ drawn old = drawn new := by
  unfold drawsSame drawn
  rw [decide_eq_true_eq]
  exact ⟨fun h => h.elim (congrArg _) id, .inr⟩

theorem buildsUpon_some {previous current : List (Entry α)} :
    buildsUpon (some previous) current = true ↔ previous <+: current := by
  rw [buildsUpon, decide_eq_true_eq, List.prefix_iff_eq_take]
  constructor
  · exact fun h => h.2.symm
  · intro h
    exact ⟨by rw [h]; exact List.length_take_le' _ _, h.symm⟩

/-- No new page, and what it draws is what the snapshot does: the device shows what it showed. -/
theorem sameAsLast_iff {s : State α} {l : Option (Device α)} {d : Device α} (hbefore : Before l (some d))
    (hdrawn : drawn d.entries ≠ []) (hlist : s.lastDisplayList = l.map displayListId)
    (hsnapshot : s.lastSnapshot.map drawn = (shows l).map Prod.snd) :
    (!(s.lastDisplayList.all fun last => (displayListId d).1 ≠ last.1) &&
      s.lastSnapshot.any (drawsSame · d.entries)) = true ↔ shows (some d) = shows l := by
  have hshows := shows_of_drawn hdrawn
  have hhead : ∀ {x : Device α}, drawn x.entries ≠ [] → (displayListId x).1 = some x.page := fun hx =>
    if_neg fun hnil => hx (by rw [hnil]; rfl)
  rw [hlist, hshows, Bool.and_eq_true, Option.any_eq_true]
  cases l with
  | none => simp [shows]
  | some a =>
    simp only [Option.map_some, Option.all_some, decide_not, Bool.not_not, decide_eq_true_eq, hhead hdrawn]
    constructor
    · intro ⟨hpage, snapshot, hsome, hsame⟩
      rw [hsome, Option.map_some, eq_comm, Option.map_eq_some_iff] at hsnapshot
      obtain ⟨⟨page, plot⟩, hv, hplot⟩ := hsnapshot
      obtain ⟨x, hx, hpx, _⟩ := shows_eq_some hv
      cases hx
      have hax := hhead (x := a) fun hnil => by
        rw [shows_of_blank hnil] at hv
        cases hv
      rw [hax, Option.some.injEq] at hpage
      rw [hv, hpage, hpx, ← drawsSame_iff.1 hsame, ← hplot]
    · intro hsame
      obtain ⟨x, hx, hpx, hdx⟩ := shows_eq_some hsame.symm
      cases hx
      rw [← hsame, Option.map_some, Option.map_eq_some_iff] at hsnapshot
      obtain ⟨snapshot, hsome, hplot⟩ := hsnapshot
      have hax := hhead (x := a) (hdx ▸ hdrawn)
      exact ⟨by rw [hax, hpx], snapshot, hsome, drawsSame_iff.2 hplot⟩

/-- A look is taken. -/
def Taken (incomplete : Bool) (look : Look) : Prop := look.current ∧ (incomplete ∨ look.complete)

instance (incomplete : Bool) (look : Look) : Decidable (Taken incomplete look) :=
  inferInstanceAs (Decidable (_ ∧ _))

theorem snapshot_not_taken {incomplete : Bool} {look : Look} (h : ¬ Taken incomplete look) (s : State α) :
    snapshot incomplete look s = (none, s) := by
  unfold snapshot
  split
  · rfl
  · cases hcurrent : look.current with
    | false => rfl
    | true =>
      have hpage : incomplete = false ∧ look.complete = false := by
        simpa [Taken, hcurrent] using h
      simp [hpage]

/-- Only what hera remembers of the look is different. -/
structure Noted (s s' : State α) (device : Option (Device α)) : Prop where
  device_eq : s'.device = s.device
  cellPlot_eq : s'.cellPlot = s.cellPlot
  sent_eq : s'.sent = s.sent
  remembers : Remembers s' device

/-- **A look finds a plot exactly where the device shows something else than at the last.** -/
theorem snapshot_taken {incomplete : Bool} {look : Look} (h : Taken incomplete look) {s : State α} {d : Device α}
    (hdevice : s.device = some d) {seen : Option (Device α)} (hremembers : Remembers s seen)
    (hbefore : Before seen (some d)) (hblank : shows (some d) = none → shows seen = none) :
    (snapshot incomplete look s).1 = (if shows (some d) = shows seen then none else some d.entries) ∧
      Noted s (snapshot incomplete look s).2 (some d) := by
  obtain ⟨l, hl, hsame, hlist, hsnapshot⟩ := hremembers
  have hcurrent : (!look.current) = false := by simp [h.1]
  have hpage : (!incomplete && !look.complete) = false := by
    rcases h.2 with h | h <;> simp [h]
  unfold snapshot
  simp only [hdevice, hcurrent, hpage, Bool.false_eq_true, if_false]
  rw [← hsame]
  rw [← hsame] at hblank
  have hld := hl.trans hbefore
  split
  · next hid =>
    -- nothing was added to the list
    rw [hlist, Option.map_eq_some_iff] at hid
    obtain ⟨a, ha, hid⟩ := hid
    have hshows := shows_of_displayListId (ha ▸ hld) hid
    rw [← ha] at hshows
    rw [if_pos hshows.symm]
    exact ⟨rfl, rfl, rfl, rfl, l, hld, hshows, hlist, hsnapshot⟩
  · split
    · next hany =>
      -- nothing is drawn on the page, nor was at the last look
      have hnone : drawn d.entries = [] := by
        by_contra hne
        rw [any_isVisual.2 hne] at hany
        cases hany
      have hshows := shows_of_blank hnone
      rw [if_pos (hshows.trans (hblank hshows).symm)]
      refine ⟨rfl, hdevice.symm ▸ rfl, rfl, rfl, some d, Before.refl _, rfl, rfl, ?_⟩
      show s.lastSnapshot.map drawn = _
      rw [hsnapshot, hblank hshows, hshows]
    · next hany =>
      have hdrawn : drawn d.entries ≠ [] := any_isVisual.1 (by simpa using hany)
      have hiff := sameAsLast_iff hld hdrawn hlist hsnapshot
      split
      · next hcond =>
        have hshows := hiff.1 hcond
        rw [if_pos hshows]
        refine ⟨rfl, hdevice.symm ▸ rfl, rfl, rfl, some d, Before.refl _, rfl, rfl, ?_⟩
        show s.lastSnapshot.map drawn = _
        rw [hsnapshot, hshows]
      · next hcond =>
        rw [if_neg fun hshows => hcond (hiff.2 hshows)]
        refine ⟨rfl, hdevice.symm ▸ rfl, rfl, rfl, some d, Before.refl _, rfl, rfl, ?_⟩
        rw [shows_of_drawn hdrawn]
        rfl

end

end Jovian.RGraphics
