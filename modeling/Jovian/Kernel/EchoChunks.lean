import Jovian.Kernel.EchoFilter

/-!
# EchoChunks — what is shown, and when the output was polled

The filter that reads an output in chunks beside the one that reads it at once.

* **`shown_chunks_iff`** — they show the same exactly where no chunk's end is wrong (`Torn`): from
  the first that is, the filter of the chunks shows more.
* `Weaker.line` — a filter that expects less echo drops fewer lines.
-/

namespace Jovian.EchoFilter

variable {C W C' : EchoFilter} {oc ow rest text : Text} {torn : Prop}

/-! ## Two filters at one line -/

/-- What can be seen of a text: newlines are not. -/
def visible (text : Text) : Nat := text.countP (· ≠ '\n')

@[simp] theorem visible_nil : visible [] = 0 := rfl

@[simp] theorem visible_append (a b : Text) : visible (a ++ b) = visible a + visible b :=
  List.countP_append

@[simp] theorem visible_newline : visible ['\n'] = 0 := rfl

@[simp] theorem visible_blank (n : Nat) : visible (List.replicate n '\n') = 0 := by
  simp [visible]

theorem visible_pos (hne : text ≠ []) (h : '\n' ∉ text) : 0 < visible text := by
  cases text with
  | nil => exact absurd rfl hne
  | cons c text =>
    have hc : c ≠ '\n' := fun hc => h (hc ▸ List.mem_cons_self)
    simp [visible, hc]

/-- `C` expects no echo that `W` does not, and drops no return code that `W` shows. -/
structure Weaker (C W : EchoFilter) : Prop where
  afterEcho : C.afterEcho = true → W.afterEcho = true
  numbered : C.numbered = true → W.numbered = true
  continuable : C.numbered = true → C.continuable = true → W.afterEcho = true ∨ W.continuable = true
  command : C.afterEcho = true ∨ C.numbered = true → C.command = W.command
  lastLine : isReturnCodeLine C.lastLine = true →
    W.lastLine = C.lastLine ∧ (C.blankLines = 0 → W.blankLines = 0)

/-- The filters do the same: `m_continuable` is read only in a block, between echoes. -/
structure Same (C W : EchoFilter) : Prop where
  blankLines : C.blankLines = W.blankLines
  afterEcho : C.afterEcho = W.afterEcho
  numbered : C.numbered = W.numbered
  continuable : C.numbered = true → C.afterEcho = false → C.continuable = W.continuable
  command : C.command = W.command
  lastLine : C.lastLine = W.lastLine

theorem Weaker.continues (h : Weaker C W) (hc : C.continues = true) : W.continues = true := by
  simp only [EchoFilter.continues, Bool.or_eq_true, Bool.and_eq_true] at hc ⊢
  rcases hc with hc | ⟨hc, hcont⟩
  · exact .inl (h.afterEcho hc)
  · exact (h.continuable hc hcont).imp_right fun hw => ⟨h.numbered hc, hw⟩

theorem Same.continues (h : Same C W) : C.continues = W.continues := by
  unfold EchoFilter.continues
  rw [← h.afterEcho, ← h.numbered]
  cases ha : C.afterEcho
  · cases hn : C.numbered
    · rfl
    · rw [h.continuable hn ha]
  · rfl

theorem Same.weaker (h : Same C W) : Weaker C W where
  afterEcho hc := h.afterEcho ▸ hc
  numbered hc := h.numbered ▸ hc
  continuable hn hc := by
    cases ha : C.afterEcho
    · exact .inr (h.continuable hn ha ▸ hc)
    · exact .inl (h.afterEcho ▸ ha)
  command _ := h.command
  lastLine _ := ⟨h.lastLine.symm, fun hb => h.blankLines ▸ hb⟩

theorem Weaker.mayBeEcho (h : Weaker C W) {start : Text} (hc : C.mayBeEcho start = true) :
    W.mayBeEcho start = true := by
  cases start with
  | nil => rfl
  | cons c start =>
    simp only [EchoFilter.mayBeEcho, decide_eq_true_eq] at hc ⊢
    rcases hc with hc | ⟨hm, hc⟩ | ⟨hm, hc⟩ | ⟨hr, hc⟩
    · exact .inl hc
    · exact .inr (.inl ⟨h.continues hm, hc⟩)
    · exact .inr (.inr (.inl ⟨h.numbered hm, hc⟩))
    · exact .inr (.inr (.inr ⟨hr, (h.lastLine hc).1 ▸ hc⟩))

theorem Same.mayBeEcho (h : Same C W) (start : Text) : C.mayBeEcho start = W.mayBeEcho start := by
  cases start with
  | nil => rfl
  | cons c start => simp only [EchoFilter.mayBeEcho, h.continues, h.numbered, h.lastLine]

/-- A filter that has shown the line expects no echo. -/
theorem Weaker.of_shown (hafter : C.afterEcho = false) (hnumbered : C.numbered = false)
    (hlast : C.lastLine = dropReturn text) : Weaker C (W.line text).1 where
  afterEcho h := by simp [hafter] at h
  numbered h := by simp [hnumbered] at h
  continuable h := by simp [hnumbered] at h
  command h := by simp [hafter, hnumbered] at h
  lastLine h := by
    rw [hlast] at h ⊢
    rw [line_eq, kind_returnCode h, lineAs]
    split
    · rename_i hsame
      exact ⟨hsame.1.symm, fun _ => hsame.2⟩
    · exact ⟨rfl, fun _ => rfl⟩

theorem Weaker.joins (h : Weaker C W) (hc : C.continues = true) (more : Text) :
    Weaker (C.joins more) (W.joins more) := by
  simp only [EchoFilter.continues, Bool.or_eq_true, Bool.and_eq_true] at hc
  have hcommand : C.command = W.command := h.command (hc.imp_right And.left)
  refine ⟨h.afterEcho, ?_, fun _ _ => ?_, fun _ => ?_, h.lastLine⟩
  · simp [EchoFilter.joins, hcommand]
  · rcases hc with hc | ⟨hn, hcont⟩
    · exact .inl (h.afterEcho hc)
    · exact h.continuable hn hcont
  · simp [EchoFilter.joins, hcommand]

theorem Weaker.line (h : Weaker C W) (text : Text) : Weaker (C.line text).1 (W.line text).1 := by
  have hshows : C.line text = C.shows text → Weaker (C.line text).1 (W.line text).1 := by
    intro hshows
    rw [hshows]
    exact .of_shown rfl rfl rfl
  have hc := line_eq C text
  have hw := line_eq W text
  cases hkind : kind (dropReturn text) with
  | continuation =>
    rw [hkind, lineAs] at hc hw
    split at hc
    · rw [if_pos (h.continues ‹_›)] at hw
      rw [hc, hw]
      exact h.joins ‹_› _
    · exact hshows hc
  | echo =>
    rw [hc, hw, hkind]
    exact ⟨fun _ => rfl, id, fun _ _ => .inl rfl, fun _ => rfl,
      fun hr => ⟨(h.lastLine hr).1, fun _ => rfl⟩⟩
  | numbered =>
    rw [hkind, lineAs] at hc hw
    split at hc
    · rw [if_pos (h.numbered ‹_›)] at hw
      rw [hc, hw]
      exact ⟨id, h.numbered, fun _ _ => .inr rfl, fun _ => h.command (.inr ‹_›), h.lastLine⟩
    · exact hshows hc
  | blank =>
    rw [hc, hw, hkind]
    refine ⟨id, id, fun hn => absurd hn Bool.false_ne_true, fun hn => ?_,
      fun hr => ⟨(h.lastLine hr).1, fun hb => absurd hb (Nat.succ_ne_zero _)⟩⟩
    exact hn.elim (absurd · Bool.false_ne_true) (absurd · Bool.false_ne_true)
  | returnCode =>
    have hcode := kind_spec (dropReturn text)
    rw [hkind, lineAs] at hc hw
    rw [hkind] at hcode
    split at hc
    · rename_i hsame
      rw [hsame.1] at hcode
      obtain ⟨hlast, hblank⟩ := h.lastLine hcode
      rw [if_pos ⟨hsame.1.trans hlast.symm, hblank hsame.2⟩] at hw
      rw [hc, hw]
      refine ⟨id, id, fun hn => absurd hn Bool.false_ne_true, fun hn => ?_, h.lastLine⟩
      exact hn.elim (absurd · Bool.false_ne_true) (absurd · Bool.false_ne_true)
    · exact hshows hc
  | other =>
    rw [hkind] at hc
    exact hshows hc

theorem shows_ne_nil (m : EchoFilter) (text : Text) : (m.shows text).2 ≠ [] := by
  simp [EchoFilter.shows]

theorem line_shows {m : EchoFilter} (hout : (m.line text).2 ≠ []) : m.line text = m.shows text := by
  rw [line_eq] at hout ⊢
  cases hkind : kind (dropReturn text) with
  | continuation | numbered | returnCode =>
    rw [hkind] at hout
    simp only [lineAs] at hout ⊢
    split at hout
    · exact absurd rfl hout
    · exact if_neg ‹_›
  | echo | blank =>
    rw [hkind] at hout
    exact absurd rfl hout
  | other => rfl

/-- A filter drops what one drops that expects less echo. -/
theorem Weaker.dropped (h : Weaker C W) (hout : (C.line text).2 = []) : (W.line text).2 = [] := by
  rw [line_eq] at hout ⊢
  cases hkind : kind (dropReturn text) with
  | continuation =>
    simp only [hkind, lineAs] at hout ⊢
    split at hout
    · rw [if_pos (h.continues ‹_›)]
    · exact absurd hout (shows_ne_nil C text)
  | numbered =>
    simp only [hkind, lineAs] at hout ⊢
    split at hout
    · rw [if_pos (h.numbered ‹_›)]
    · exact absurd hout (shows_ne_nil C text)
  | echo | blank => rfl
  | returnCode =>
    have hcode := kind_spec (dropReturn text)
    simp only [hkind, lineAs] at hout hcode ⊢
    split at hout
    · rename_i hsame
      rw [hsame.1] at hcode
      obtain ⟨hlast, hblank⟩ := h.lastLine hcode
      rw [if_pos ⟨hsame.1.trans hlast.symm, hblank hsame.2⟩]
    · exact absurd hout (shows_ne_nil C text)
  | other =>
    rw [hkind] at hout
    exact absurd hout (shows_ne_nil C text)

theorem visible_line (m : EchoFilter) (text : Text) :
    visible (m.line text).2 = if (m.line text).2 = [] then 0 else visible text := by
  split
  · rename_i h
    rw [h, visible_nil]
  · rename_i h
    rw [line_shows h]
    simp [EchoFilter.shows]

theorem Same.of_shows {m : EchoFilter} (hblank : C.blankLines = 0) (hafter : C.afterEcho = false)
    (hnumbered : C.numbered = false) (hlast : C.lastLine = dropReturn text)
    (hcommand : C.command = m.command) : Same C (m.shows text).1 where
  blankLines := hblank
  afterEcho := hafter
  numbered := hnumbered
  continuable h := by simp [hnumbered] at h
  command := hcommand
  lastLine := hlast

theorem Same.joins (h : Same C W) (hc : C.continues = true) (more : Text) :
    Same (C.joins more) (W.joins more) := by
  simp only [EchoFilter.continues, Bool.or_eq_true, Bool.and_eq_true] at hc
  refine ⟨h.blankLines, h.afterEcho, ?_, fun _ ha => ?_, ?_, h.lastLine⟩
  · simp only [EchoFilter.joins, h.command]
  · have hafter : C.afterEcho ≠ true := Bool.eq_false_iff.mp ha
    exact h.continuable (hc.resolve_left hafter).1 ha
  · simp only [EchoFilter.joins, h.command]

theorem Same.line (h : Same C W) (text : Text) :
    Same (C.line text).1 (W.line text).1 ∧ (C.line text).2 = (W.line text).2 := by
  have hshows : Same (C.shows text).1 (W.shows text).1 ∧ (C.shows text).2 = (W.shows text).2 :=
    ⟨.of_shows rfl rfl rfl rfl h.command, by simp only [EchoFilter.shows, h.blankLines]⟩
  rw [line_eq, line_eq]
  cases kind (dropReturn text) with
  | continuation =>
    simp only [lineAs, ← h.continues]
    split
    · exact ⟨h.joins ‹_› _, rfl⟩
    · exact hshows
  | echo =>
    exact ⟨⟨rfl, rfl, rfl, fun _ ha => absurd ha.symm Bool.false_ne_true, rfl, h.lastLine⟩, rfl⟩
  | numbered =>
    simp only [lineAs, ← h.numbered]
    split
    · exact ⟨⟨h.blankLines, rfl, h.numbered, fun _ _ => rfl, h.command, h.lastLine⟩, rfl⟩
    · exact hshows
  | blank =>
    exact ⟨⟨congrArg (· + 1) h.blankLines, rfl, rfl, fun hn => absurd hn Bool.false_ne_true,
      h.command, h.lastLine⟩, rfl⟩
  | returnCode =>
    simp only [lineAs, ← h.lastLine, ← h.blankLines]
    split
    · exact ⟨⟨rfl, rfl, rfl, fun hn => absurd hn Bool.false_ne_true, h.command, h.lastLine⟩, rfl⟩
    · exact hshows
  | other => exact hshows

/-! ## A filter that reads in chunks, beside one that reads at once -/

/-- What the filter that reads at once will show of what it has of its line. -/
def due (W : EchoFilter) (rest : Text) : Nat :=
  if '\n' ∈ rest ∧ (W.line (W.whole rest)).2 = [] then 0 else visible W.partialLine

/-- Neither has shown any of its line. -/
structure Held (torn : Prop) (C W : EchoFilter) (oc ow : Text) : Prop where
  passing : C.passing = false
  partialLine : C.partialLine = W.partialLine
  weaker : Weaker C W
  same : ¬ torn → Same C W ∧ oc = ow
  more : torn → visible ow < visible oc

/-- `C` has shown the start of its line. -/
structure Gone (torn : Prop) (C W : EchoFilter) (oc ow rest : Text) : Prop where
  passing : C.passing = true
  partialLine : C.lastLine ++ C.partialLine = W.partialLine
  afterEcho : C.afterEcho = false
  numbered : C.numbered = false
  blankLines : C.blankLines = 0
  same : ¬ torn → C.command = W.command ∧ W.mayBeEcho W.partialLine = false ∧
    oc ++ C.partialLine = ow ++ (List.replicate W.blankLines '\n' ++ W.partialLine) ∧
    ('\n' ∈ rest → (W.line (W.whole rest)).2 ≠ [])
  more : torn → visible ow + W.due rest < visible oc + visible C.partialLine

/-- `C` reads in chunks and `W` at once: they have written `oc` and `ow`, `rest` is still to come,
and `torn` is whether the end of a chunk was wrong. -/
structure Beside (torn : Prop) (C W : EchoFilter) (oc ow rest : Text) : Prop where
  passing : W.passing = false
  newline : '\n' ∉ W.partialLine
  lines : Held torn C W oc ow ∨ Gone torn C W oc ow rest

theorem beside_init (rest : Text) : Beside False {} {} [] [] rest where
  passing := rfl
  newline := nofun
  lines := .inl ⟨rfl, rfl, ⟨id, id, nofun, fun _ => rfl, nofun⟩,
    fun _ => ⟨⟨rfl, rfl, rfl, nofun, rfl, rfl⟩, rfl⟩, nofun⟩

theorem line_frame (m : EchoFilter) (text : Text) :
    (m.line text).1.passing = m.passing ∧ (m.line text).1.partialLine = m.partialLine := by
  rw [line_eq]
  cases kind (dropReturn text) with
  | continuation | numbered | returnCode =>
    simp only [lineAs]
    split <;> exact ⟨rfl, rfl⟩
  | echo | blank | other => exact ⟨rfl, rfl⟩

theorem whole_newline (W : EchoFilter) (rest : Text) : W.whole ('\n' :: rest) = W.partialLine := by
  simp [whole]

variable {c : Char}

/-- A character of a line changes nothing but the line. -/
theorem line_partialLine (m : EchoFilter) (p : Text) :
    (({ m with partialLine := p } : EchoFilter).line text).2 = (m.line text).2 := by
  rw [line_eq, line_eq]
  cases kind (dropReturn text) with
  | continuation | numbered | returnCode =>
    simp only [lineAs, apply_ite Prod.snd]
    rfl
  | echo | blank | other => rfl

theorem whole_char (hc : c ≠ '\n') (m : EchoFilter) (rest : Text) :
    ({ m with partialLine := m.partialLine ++ [c] } : EchoFilter).whole rest =
      m.whole (c :: rest) := by
  simp [whole, hc]

theorem due_le (W : EchoFilter) (rest : Text) : W.due rest ≤ visible W.partialLine := by
  unfold due
  split
  · exact Nat.zero_le _
  · exact Nat.le_refl _

theorem Weaker.congr {p q : Text} {b : Bool} (h : Weaker C W) :
    Weaker { C with partialLine := p, passing := b } { W with partialLine := q } :=
  ⟨h.afterEcho, h.numbered, h.continuable, h.command, h.lastLine⟩

theorem Same.congr {p q : Text} {b : Bool} (h : Same C W) :
    Same { C with partialLine := p, passing := b } { W with partialLine := q } :=
  ⟨h.blankLines, h.afterEcho, h.numbered, h.continuable, h.command, h.lastLine⟩

/-- Both read one character of a line. -/
theorem Beside.readInLine (h : Beside torn C W oc ow (c :: rest)) (hc : c ≠ '\n') :
    Beside torn { C with partialLine := C.partialLine ++ [c] }
      { W with partialLine := W.partialLine ++ [c] } oc ow rest := by
  obtain ⟨hpassing, hnewline, hlines⟩ := h
  refine ⟨hpassing, by simp [hnewline, Ne.symm hc], hlines.imp (fun hheld => ?_) fun hgone => ?_⟩
  · obtain ⟨hcpassing, hheldLine, hweaker, hsame, hmore⟩ := hheld
    exact ⟨hcpassing, congrArg (· ++ [c]) hheldLine, hweaker.congr,
      fun ht => ⟨(hsame ht).1.congr, (hsame ht).2⟩, hmore⟩
  · obtain ⟨hcpassing, hheldLine, hafter, hnumbered, hblank, hsame, hmore⟩ := hgone
    have hend : '\n' ∈ c :: rest ↔ '\n' ∈ rest := by simp [Ne.symm hc]
    refine ⟨hcpassing, ?_, hafter, hnumbered, hblank, fun ht => ?_, fun ht => ?_⟩
    · show C.lastLine ++ (C.partialLine ++ [c]) = W.partialLine ++ [c]
      rw [← List.append_assoc, hheldLine]
    · obtain ⟨hcommand, hmay, hout, hkept⟩ := hsame ht
      refine ⟨hcommand, Bool.eq_false_iff.mpr fun h => ?_, ?_, fun hin => ?_⟩
      · rw [mayBeEcho_start (m := W) h] at hmay
        cases hmay
      · simp only [← List.append_assoc, hout]
      · rw [whole_char hc, line_partialLine]
        exact hkept (hend.mpr hin)
    · have hvisible : ∀ t : Text, visible (t ++ [c]) = visible t + 1 := fun t => by
        simp [visible, hc]
      have hdue := hmore ht
      unfold due at hdue ⊢
      rw [whole_char hc, line_partialLine, hvisible, hvisible]
      simp only [hend] at hdue
      split at hdue
      · rw [if_pos ‹_›]
        omega
      · rw [if_neg ‹_›]
        omega

/-- Both read the end of a line. -/
theorem Beside.readNewline (h : Beside torn C W oc ow ('\n' :: rest)) :
    Beside torn (C.readChar '\n').1 (W.readChar '\n').1 (oc ++ (C.readChar '\n').2)
      (ow ++ (W.readChar '\n').2) rest := by
  obtain ⟨hpassing, hnewline, hlines⟩ := h
  have hread : ∀ m : EchoFilter, m.passing = false → m.readChar '\n' =
      ({ (m.line m.partialLine).1 with partialLine := [] }, (m.line m.partialLine).2) :=
    fun m hm => by simp [EchoFilter.readChar, hm]
  rw [hread W hpassing]
  refine ⟨(line_frame W W.partialLine).1.trans hpassing, nofun, .inl ?_⟩
  rcases hlines with hheld | hgone
  · obtain ⟨hcpassing, hheldLine, hweaker, hsame, hmore⟩ := hheld
    rw [hread C hcpassing, hheldLine]
    refine ⟨(line_frame C W.partialLine).1.trans hcpassing, rfl, (hweaker.line _).congr,
      fun ht => ?_, fun ht => ?_⟩
    · obtain ⟨hs, hout⟩ := (hsame ht).1.line W.partialLine
      exact ⟨hs.congr, by rw [hout, (hsame ht).2]⟩
    · have hlt := hmore ht
      have hle : visible (W.line W.partialLine).2 ≤ visible (C.line W.partialLine).2 := by
        rw [visible_line, visible_line]
        split
        · exact Nat.zero_le _
        · rename_i hshown
          rw [if_neg fun hdrop => hshown (hweaker.dropped hdrop)]
      rw [visible_append, visible_append]
      exact Nat.add_lt_add_of_lt_of_le hlt hle
  · obtain ⟨hcpassing, hheldLine, hafter, hnumbered, hblank, hsame, hmore⟩ := hgone
    have hcr : C.readChar '\n' = ({ C with
        lastLine := dropReturn W.partialLine, passing := false, partialLine := [] },
        C.partialLine ++ ['\n']) := by
      simp [EchoFilter.readChar, hcpassing, hheldLine]
    rw [hcr]
    have hweaker : Weaker { C with lastLine := dropReturn W.partialLine }
        (W.line W.partialLine).1 := .of_shown hafter hnumbered rfl
    refine ⟨rfl, rfl, hweaker.congr, fun ht => ?_, fun ht => ?_⟩
    · obtain ⟨hcommand, -, hout, hkept⟩ := hsame ht
      have hshows := line_shows (whole_newline W rest ▸ hkept List.mem_cons_self)
      have hs : Same { C with lastLine := dropReturn W.partialLine }
          (W.shows W.partialLine).1 := .of_shows hblank hafter hnumbered rfl hcommand
      rw [hshows]
      refine ⟨hs.congr, ?_⟩
      rw [← List.append_assoc, hout]
      simp only [EchoFilter.shows, List.append_assoc]
    · have hdue := hmore ht
      unfold due at hdue
      rw [whole_newline] at hdue
      rw [visible_append, visible_append, visible_append, visible_line]
      simp only [List.mem_cons_self, true_and] at hdue
      exact Nat.lt_of_lt_of_le hdue (by simp)

theorem Beside.readChar (h : Beside torn C W oc ow (c :: rest)) :
    Beside torn (C.readChar c).1 (W.readChar c).1 (oc ++ (C.readChar c).2)
      (ow ++ (W.readChar c).2) rest := by
  by_cases hc : c = '\n'
  · subst hc
    exact h.readNewline
  · have hread : ∀ m : EchoFilter,
        m.readChar c = ({ m with partialLine := m.partialLine ++ [c] }, []) := fun m => if_pos hc
    rw [hread, hread, List.append_nil, List.append_nil]
    exact h.readInLine hc

/-! ## The end of a chunk -/

theorem Beside.not_torn (h : Beside torn C W oc ow rest) (ht : ¬ torn) (hearly : C.early = (C, [])) :
    ¬ W.Torn rest := by
  intro htorn
  obtain ⟨hmay, hdrop⟩ := dropped_of_torn htorn
  rcases h.lines with hheld | hgone
  · -- what both hold may be echo
    have hcmay : C.mayBeEcho C.partialLine = false := by
      rw [(hheld.same ht).1.mayBeEcho, hheld.partialLine]
      exact hmay
    have hne : C.partialLine ≠ [] := hheld.partialLine ▸ htorn.1
    have hgoes : C.early.1.passing = true := by
      simp [early, hne, hheld.passing, hcmay]
    rw [hearly, hheld.passing] at hgoes
    cases hgoes
  · exact (hgone.same ht).2.2.2 htorn.2.1 hdrop

theorem Held.goes (hheld : Held torn C W oc ow) (hnewline : '\n' ∉ W.partialLine)
    (hne : C.partialLine ≠ []) (hmay : C.mayBeEcho C.partialLine = false) :
    Gone (torn ∨ W.Torn rest) { C with
        blankLines := 0, afterEcho := false, numbered := false, passing := true,
        lastLine := C.partialLine, partialLine := [] } W
      (oc ++ (List.replicate C.blankLines '\n' ++ C.partialLine)) ow rest := by
  obtain ⟨hcpassing, hheldLine, hweaker, hsame, hmore⟩ := hheld
  rw [hheldLine] at hne hmay ⊢
  refine ⟨rfl, List.append_nil _, rfl, rfl, rfl, fun ht => ?_, fun ht => ?_⟩
  · obtain ⟨ht, htorn⟩ := not_or.mp ht
    obtain ⟨hs, rfl⟩ := hsame ht
    have hwmay : W.mayBeEcho W.partialLine = false := (hs.mayBeEcho _).symm.trans hmay
    refine ⟨hs.command, hwmay, by rw [List.append_nil, hs.blankLines], fun hend hdrop => ?_⟩
    exact htorn ((torn_iff hend).mpr ⟨hwmay, hdrop⟩)
  · rw [visible_append, visible_append, visible_blank, visible_nil]
    by_cases htorn : torn
    · have hle := due_le W rest
      have hlt := hmore htorn
      omega
    · obtain ⟨hs, rfl⟩ := hsame htorn
      have hnow : W.Torn rest := ht.resolve_left htorn
      have hdue : W.due rest = 0 := if_pos ⟨hnow.2.1, (dropped_of_torn hnow).2⟩
      have hpos := visible_pos hne hnewline
      omega

theorem early_held (hgo : C.partialLine ≠ []) (hpassing : C.passing = false)
    (hmay : C.mayBeEcho C.partialLine = false) : C.early = ({ C with
        blankLines := 0, afterEcho := false, numbered := false, passing := true,
        lastLine := C.partialLine, partialLine := [] },
      List.replicate C.blankLines '\n' ++ C.partialLine) := by
  simp [early, hgo, hpassing, hmay]

theorem early_gone (hgo : C.partialLine ≠ []) (hpassing : C.passing = true) : C.early =
    ({ C with lastLine := C.lastLine ++ C.partialLine, partialLine := [] }, C.partialLine) := by
  simp [early, hgo, hpassing]

/-- The chunk of `C` ends. -/
theorem Beside.early (h : Beside torn C W oc ow rest) :
    Beside (torn ∨ W.Torn rest) C.early.1 W (oc ++ C.early.2) ow rest := by
  by_cases hearly : C.early = (C, [])
  · have htorn : (torn ∨ W.Torn rest) = torn := by
      rw [eq_iff_iff, or_iff_left_iff_imp]
      intro hnow
      by_contra ht
      exact h.not_torn ht hearly hnow
    rw [htorn, hearly, List.append_nil]
    exact h
  · obtain ⟨hpassing, hnewline, hlines⟩ := h
    have hgo : C.partialLine ≠ [] ∧ (C.passing = true ∨ ¬ C.mayBeEcho C.partialLine = true) := by
      by_contra hno
      exact hearly (if_neg hno)
    refine ⟨hpassing, hnewline, .inr ?_⟩
    rcases hlines with hheld | hgone
    · have hmay : C.mayBeEcho C.partialLine = false := by
        simpa [hheld.passing] using hgo.2
      rw [early_held hgo.1 hheld.passing hmay]
      exact hheld.goes hnewline hgo.1 hmay
    · obtain ⟨hcpassing, hheldLine, hafter, hnumbered, hblank, hsame, hmore⟩ := hgone
      rw [early_gone hgo.1 hcpassing]
      refine ⟨hcpassing, (List.append_nil _).trans hheldLine, hafter, hnumbered, hblank,
        fun ht => ?_, fun ht => ?_⟩
      · obtain ⟨hcommand, hmay, hout, hkept⟩ := hsame (not_or.mp ht).1
        exact ⟨hcommand, hmay, (List.append_nil _).trans hout, hkept⟩
      · rw [visible_append, visible_nil, Nat.add_zero]
        by_cases htorn : torn
        · exact hmore htorn
        · -- the whole of a line that is gone is shown
          have hnow : W.Torn rest := ht.resolve_left htorn
          exact absurd (dropped_of_torn hnow).2 ((hsame htorn).2.2.2 hnow.2.1)

/-- The chunks' ends are right, `m` having read what comes before them at once. -/
def Untorn (m : EchoFilter) : List Text → Prop
  | [] => True
  | chunk :: chunks => ¬ (m.read chunk).1.Torn chunks.flatten ∧ (m.read chunk).1.Untorn chunks

instance decUntorn (m : EchoFilter) : (chunks : List Text) → Decidable (m.Untorn chunks)
  | [] => isTrue trivial
  | chunk :: chunks => @instDecidableAnd _ _ _ (decUntorn (m.read chunk).1 chunks)

theorem Beside.read {chunk : Text} (h : Beside torn C W oc ow (chunk ++ rest)) :
    Beside torn (C.read chunk).1 (W.read chunk).1 (oc ++ (C.read chunk).2)
      (ow ++ (W.read chunk).2) rest :=
  Transducer.run_simulates (R := Beside torn) (fun _ _ _ _ _ _ h => h.readChar) chunk h

theorem read_append (m : EchoFilter) (a b : Text) :
    m.read (a ++ b) = (((m.read a).1.read b).1, (m.read a).2 ++ ((m.read a).1.read b).2) :=
  Transducer.run_append a b

/-- The filter of the chunks, beside one that has read them at once. -/
theorem Beside.pushes {chunks : List Text} (h : Beside torn C W oc ow chunks.flatten) :
    Beside (torn ∨ ¬ W.Untorn chunks) (Transducer.run push C chunks).1
      (W.read chunks.flatten).1 (oc ++ (Transducer.run push C chunks).2)
      (ow ++ (W.read chunks.flatten).2) [] := by
  induction chunks generalizing torn C W oc ow with
  | nil => simpa [Untorn, EchoFilter.read] using h
  | cons chunk chunks ih =>
    have hpush := ih (Beside.read h).early
    have htorn : ((torn ∨ (W.read chunk).1.Torn chunks.flatten) ∨ ¬ (W.read chunk).1.Untorn chunks) =
        (torn ∨ ¬ W.Untorn (chunk :: chunks)) := by
      rw [eq_iff_iff, or_assoc, Untorn, not_and_or, not_not]
    rw [htorn] at hpush
    rw [List.flatten_cons, read_append, Transducer.run_cons]
    simpa only [push, List.append_assoc] using hpush

/-! ## The end of the output -/

/-- What the end of an output shows. -/
def ending (m : EchoFilter) : Text := m.early.2 ++ (finish m.early.1).2

theorem early_early (m : EchoFilter) : m.early.1.early = (m.early.1, []) := by
  by_cases hgo : m.partialLine ≠ [] ∧ (m.passing = true ∨ ¬ m.mayBeEcho m.partialLine = true)
  · have hnil : m.early.1.partialLine = [] := by
      unfold early
      rw [if_pos hgo]
      split <;> rfl
    generalize m.early.1 = m' at hnil ⊢
    simp [early, hnil]
  · have hearly : m.early = (m, []) := if_neg hgo
    rw [hearly, hearly]

theorem pushes_early (chunks : List Text) :
    (Transducer.run push {} chunks).1.early = ((Transducer.run push {} chunks).1, []) := by
  refine Transducer.run_keeps (P := fun m : EchoFilter => m.early = (m, [])) ?_ rfl chunks
  exact fun m chunk _ => early_early (m.read chunk).1

theorem visible_unended (text : Text) :
    visible (if text.getLast? = some '\n' then text.dropLast else text) = visible text := by
  split
  · rename_i h
    conv_rhs => rw [← List.dropLast_append_getLast? '\n' h]
    rw [visible_append, visible_newline, Nat.add_zero]
  · rfl

theorem visible_finish {m : EchoFilter} (hpassing : m.passing = false) :
    visible (finish m).2 = if isEchoLine m.partialLine = true then 0
      else visible (m.line m.partialLine).2 := by
  by_cases hecho : isEchoLine m.partialLine = true
  · simp [finish, hpassing, hecho]
  · by_cases hne : m.partialLine = []
    · simp [finish, hpassing, hne, isEchoLine, (line_blank rfl : (m.line []).2 = [])]
    · have hdot : m.partialLine ≠ ['.'] := by
        rintro hdot
        exact hecho (by simp [isEchoLine, hdot])
      have hfinish : (finish m).2 = if (m.line m.partialLine).2.getLast? = some '\n' then
          (m.line m.partialLine).2.dropLast else (m.line m.partialLine).2 := by
        simp [finish, hpassing, hecho, hne, hdot]
      rw [hfinish, visible_unended, if_neg hecho]

theorem Same.finish (h : Same C W) (hc : C.passing = false) (hw : W.passing = false)
    (hheldLine : C.partialLine = W.partialLine) : (finish C).2 = (finish W).2 := by
  simp only [EchoFilter.finish, hc, hw, hheldLine, (h.line W.partialLine).2, Bool.false_eq_true, if_false]
  split <;> rfl

/-- What is held of a line by both goes out where the filter that expects less echo drops it. -/
theorem Weaker.finish (h : Weaker C W) (hc : C.passing = false) (hw : W.passing = false)
    (hheldLine : C.partialLine = W.partialLine) :
    visible (finish W).2 ≤ visible (finish C).2 := by
  rw [visible_finish hc, visible_finish hw, hheldLine]
  split
  · exact Nat.le_refl _
  · rw [visible_line, visible_line]
    split
    · exact Nat.zero_le _
    · rename_i hshown
      rw [if_neg fun hdrop => hshown (h.dropped hdrop)]

theorem early_of_mayBeEcho {m : EchoFilter} (hpassing : m.passing = false)
    (hmay : m.mayBeEcho m.partialLine = true) : m.early = (m, []) := by
  simp [early, hpassing, hmay]

/-- A line that goes out at the end of the output. -/
theorem ending_gone (hpassing : W.passing = false) (hmay : W.mayBeEcho W.partialLine = false) :
    W.ending = List.replicate W.blankLines '\n' ++ W.partialLine := by
  have hne : W.partialLine ≠ [] := by
    intro hnil
    rw [hnil] at hmay
    cases hmay
  rw [ending, early_held hne hpassing hmay]
  exact List.append_nil _

theorem visible_ending (hpassing : W.passing = false) :
    visible W.ending ≤ visible W.partialLine := by
  cases hmay : W.mayBeEcho W.partialLine with
  | false =>
    rw [ending_gone hpassing hmay, visible_append, visible_blank, Nat.zero_add]
  | true =>
    rw [ending, early_of_mayBeEcho hpassing hmay, List.nil_append, visible_finish hpassing,
      visible_line]
    split
    · exact Nat.zero_le _
    · split
      · exact Nat.zero_le _
      · exact Nat.le_refl _

theorem Beside.ending (h : Beside torn C W oc ow []) (hearly : C.early = (C, [])) :
    oc ++ (finish C).2 = ow ++ W.ending ↔ ¬ torn := by
  obtain ⟨hpassing, hnewline, hheld | hgone⟩ := h
  · obtain ⟨hcpassing, hheldLine, hweaker, hsame, hmore⟩ := hheld
    have hcmay : C.mayBeEcho C.partialLine = true := by
      by_contra hmay
      have hne : C.partialLine ≠ [] := fun hnil => hmay (by rw [hnil]; rfl)
      rw [early_held hne hcpassing (Bool.eq_false_iff.mpr hmay)] at hearly
      have hgoes := congrArg (fun r => r.1.passing) hearly
      rw [hcpassing] at hgoes
      cases hgoes
    have hending : W.ending = (finish W).2 := by
      rw [EchoFilter.ending, early_of_mayBeEcho hpassing (hheldLine ▸ hweaker.mayBeEcho hcmay)]
      rfl
    rw [hending]
    constructor
    · intro heq ht
      have hlt := hmore ht
      have hle := hweaker.finish hcpassing hpassing hheldLine
      have hvisible := congrArg visible heq
      rw [visible_append, visible_append] at hvisible
      omega
    · intro ht
      obtain ⟨hs, rfl⟩ := hsame ht
      rw [hs.finish hcpassing hpassing hheldLine]
  · obtain ⟨hcpassing, hheldLine, -, -, -, hsame, hmore⟩ := hgone
    have hnil : C.partialLine = [] := by
      by_contra hne
      rw [early_gone hne hcpassing] at hearly
      exact hne (congrArg (fun r => r.1.partialLine) hearly).symm
    have hfinish : (finish C).2 = [] := by simp [finish, hcpassing, hnil]
    rw [hfinish, List.append_nil]
    constructor
    · intro heq ht
      have hlt := hmore ht
      have hle := visible_ending hpassing
      have hdue : W.due [] = visible W.partialLine := if_neg fun h => nomatch h.1
      rw [heq, hnil, visible_append, hdue, visible_nil] at hlt
      omega
    · intro ht
      obtain ⟨-, hmay, hout, -⟩ := hsame ht
      rw [ending_gone hpassing hmay, ← hout, hnil, List.append_nil]

/-- **What is shown of an output does not depend on its chunks** where no chunk ends inside a blank
line outside a block, or between the `\r` and the `\n` of a prompt or of a block's line; else the
filter of the chunks shows more. -/
theorem shown_chunks_iff (chunks : List Text) :
    shown chunks = shown [chunks.flatten] ↔ Untorn {} chunks := by
  have hpushes := (beside_init chunks.flatten).pushes
  have hending := hpushes.ending (pushes_early chunks)
  rw [false_or, not_not, List.nil_append, List.nil_append] at hending
  rw [← hending, shown, shown, Transducer.run_singleton, push, EchoFilter.ending]
  simp only [List.append_assoc]

/-- A chunk that ends inside a line that is not blank. -/
example : Untorn {} ["\n. display 1\n1".toList, "2\n\n. ".toList] := by decide

/-- Two spaces and a newline, polled after the first space: a blank line is shown. -/
theorem blank_line_torn :
    ¬ ∀ chunks : List Text, shown chunks = shown [chunks.flatten] := by
  intro h
  exact absurd (h [". display \"  \"\n ".toList, " \n".toList]) (by decide)

end Jovian.EchoFilter
