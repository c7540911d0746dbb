import Jovian.Client.Transcript
import Mathlib.Data.List.Forall2
import Mathlib.Data.List.Nodup

/-!
# TranscriptBatches — several messages at once are several messages

Two transcripts are alike (`Alike`) where they show the same cells with the same blocks: of a block
that was cut, both show a tail of one text.

* `applyMessage_alike` — a message that is no stream's keeps that.
* **`applyMessages_alike`** — so do several at once, beside one by one: what a run of stream messages
  has open is the block that is last (`Growing`).
-/

namespace Jovian.Transcript

open List (Forall₂)

/-! ## Alike -/

/-- Both are tails of one text. -/
def Tails (a b : Text) : Prop := a <:+ b ∨ b <:+ a

theorem Tails.refl (a : Text) : Tails a a := .inl List.suffix_rfl

theorem Tails.append {a b : Text} (h : Tails a b) (more : Text) : Tails (a ++ more) (b ++ more) :=
  h.imp (fun ⟨w, hw⟩ => ⟨w, by rw [← List.append_assoc, hw]⟩)
    fun ⟨w, hw⟩ => ⟨w, by rw [← List.append_assoc, hw]⟩

theorem Tails.of_suffix {a b a' b' : Text} (h : Tails a b) (ha : a' <:+ a) (hb : b' <:+ b) :
    Tails a' b' := by
  rcases h with h | h
  · exact List.suffix_or_suffix_of_suffix (ha.trans h) hb
  · exact List.suffix_or_suffix_of_suffix ha (hb.trans h)

theorem capText_suffix (text : Text) : (capText text).1 <:+ text := by
  unfold capText
  generalize MAX_OUTPUT_CHARS = most, 2000 = close
  extract_lets kept line
  split_ifs
  · exact List.suffix_rfl
  · exact (List.drop_suffix _ _).trans (List.drop_suffix _ _)
  · exact List.drop_suffix _ _

theorem capText_short {text : Text} (h : text.length ≤ MAX_OUTPUT_CHARS) :
    capText text = (text, false) := if_pos h

theorem capText_flag (text : Text) : (capText text).2 = true ↔ MAX_OUTPUT_CHARS < text.length := by
  unfold capText
  generalize MAX_OUTPUT_CHARS = most, 2000 = close
  extract_lets kept line
  split_ifs with hlen
  · simpa using hlen
  · simpa using hlen
  · simpa using hlen

/-- An output without its text and flag. -/
def Output.plain (o : Output) : Output :=
  match o.shown with
  | .text cls _ displayId _ => { o with shown := .text cls [] displayId false }
  | _ => o

structure AlikeOut (o p : Output) : Prop where
  plain : o.plain = p.plain
  truncated : o.truncated = p.truncated
  tails : Tails o.text p.text
  whole : p.truncated = false → o.text = p.text

structure AlikeCell (c d : Cell) : Prop where
  key : c.key = d.key
  inNum : c.inNum = d.inNum
  code : c.code = d.code
  time : c.time = d.time
  outputs : Forall₂ AlikeOut c.outputs d.outputs
  clearOnNext : c.clearOnNext = d.clearOnNext

structure Alike (t u : Transcript) : Prop where
  cells : Forall₂ AlikeCell t.cells u.cells
  currentKey : t.currentKey = u.currentKey
  nextOutputId : t.nextOutputId = u.nextOutputId

theorem AlikeOut.refl (o : Output) : AlikeOut o o := ⟨rfl, rfl, .refl _, fun _ => rfl⟩

theorem AlikeCell.refl (c : Cell) : AlikeCell c c :=
  ⟨rfl, rfl, rfl, rfl, List.forall₂_same.mpr fun o _ => .refl o, rfl⟩

theorem Alike.refl (t : Transcript) : Alike t t :=
  ⟨List.forall₂_same.mpr fun c _ => .refl c, rfl, rfl⟩

variable {t u : Transcript} {c d : Cell} {o p : Output}

theorem isBlock_plain (cls : OutputClass) (o : Output) : isBlock cls o.plain = isBlock cls o := by
  obtain ⟨id, shown⟩ := o
  cases shown <;> rfl

theorem displayId_plain (o : Output) : o.plain.shown.displayId? = o.shown.displayId? := by
  obtain ⟨id, shown⟩ := o
  cases shown <;> rfl

/-! ## A message that is no stream's -/

theorem forall₂_any {α β : Type} {R : α → β → Prop} {p : α → Bool} {q : β → Bool} {as : List α}
    {bs : List β} (h : Forall₂ R as bs) (hpq : ∀ a b, R a b → p a = q b) : as.any p = bs.any q := by
  induction h with
  | nil => rfl
  | cons hab _ ih => rw [List.any_cons, List.any_cons, hpq _ _ hab, ih]

theorem Alike.hasCell (h : Alike t u) (key : Option String) : t.hasCell key = u.hasCell key :=
  forall₂_any h.cells fun c d hcd => by rw [hcd.key]

theorem Alike.mapCell {f g : Cell → Cell} (h : Alike t u) (key : Option String)
    (hf : ∀ c d, AlikeCell c d → AlikeCell (f c) (g d)) :
    Alike (t.mapCell key f) (u.mapCell key g) := by
  unfold Transcript.mapCell
  rw [← h.hasCell]
  split
  · refine ⟨List.rel_map (fun c d hcd => ?_) h.cells, h.currentKey, h.nextOutputId⟩
    rw [← hcd.key]
    split
    · exact hf c d hcd
    · exact hcd
  · exact h

theorem Alike.pushOutput (h : Alike t u) (output : NewOutput) :
    Alike (t.pushOutput output) (u.pushOutput output) := by
  unfold Transcript.pushOutput
  rw [← h.hasCell, ← h.currentKey, ← h.nextOutputId]
  split
  · have hmap := h.mapCell t.currentKey (f := fun c => { c with
        clearOnNext := false
        outputs := (if c.clearOnNext then [] else c.outputs) ++ [⟨t.nextOutputId, output⟩] })
      (g := fun c => { c with
        clearOnNext := false
        outputs := (if c.clearOnNext then [] else c.outputs) ++ [⟨t.nextOutputId, output⟩] })
      fun c d hcd => by
        refine ⟨hcd.key, hcd.inNum, hcd.code, hcd.time, ?_, rfl⟩
        dsimp only
        rw [← hcd.clearOnNext]
        refine List.rel_append ?_ (.cons (.refl _) .nil)
        split
        · exact .nil
        · exact hcd.outputs
    exact ⟨hmap.cells, hmap.currentKey, rfl⟩
  · exact h

/-- What replaces a display does not depend on its text. -/
theorem redisplay_plain (mime : MimeOutput) (displayId : String) (h : o.plain = p.plain)
    (hid : o.shown.displayId? = some displayId) :
    redisplay mime displayId o = redisplay mime displayId p := by
  have hid' : p.shown.displayId? = some displayId := by
    rw [← displayId_plain, ← h, displayId_plain, hid]
  obtain ⟨i, shown⟩ := o
  obtain ⟨j, shown'⟩ := p
  unfold redisplay
  rw [if_pos hid, if_pos hid']
  cases shown <;> cases shown' <;> cases mime <;> simp_all [Output.plain]

theorem AlikeOut.redisplay (h : AlikeOut o p) (mime : MimeOutput) (displayId : String) :
    AlikeOut (redisplay mime displayId o) (redisplay mime displayId p) := by
  by_cases hid : o.shown.displayId? = some displayId
  · rw [redisplay_plain mime displayId h.plain hid]
    exact .refl _
  · have hid' : ¬ p.shown.displayId? = some displayId := by
      rw [← displayId_plain, ← h.plain, displayId_plain]
      exact hid
    unfold Transcript.redisplay
    rw [if_neg hid, if_neg hid']
    exact h

theorem AlikeCell.hasDisplay (h : AlikeCell c d) (displayId : String) :
    hasDisplay displayId c = hasDisplay displayId d :=
  forall₂_any h.outputs fun o p hop => by
    rw [← displayId_plain o, hop.plain, displayId_plain]

/-- A message that is no stream's does not read the text of a block. -/
theorem applyMessage_alike (h : Alike t u) {msg : WireMessage} (hmsg : msg.msgType ≠ "stream") :
    Alike (t.applyMessage msg) (u.applyMessage msg) := by
  unfold applyMessage
  rw [if_neg hmsg, if_neg hmsg]
  split
  · split
    · exact h.pushOutput _
    · exact h
  · split
    · split
      · exact h
      · rename_i mime _
        have hany : ∀ displayId, t.cells.any (hasDisplay displayId) =
            u.cells.any (hasDisplay displayId) :=
          fun displayId => forall₂_any h.cells fun c d hcd => hcd.hasDisplay displayId
        simp only [hany]
        split
        · rename_i displayId _
          refine ⟨List.rel_map (fun c d hcd => ?_) h.cells, h.currentKey, h.nextOutputId⟩
          rw [← hcd.hasDisplay]
          split
          · exact ⟨hcd.key, hcd.inNum, hcd.code, hcd.time,
              List.rel_map (fun o p hop => hop.redisplay mime displayId) hcd.outputs, hcd.clearOnNext⟩
          · exact hcd
        · exact h.pushOutput _
    · split
      · rw [← h.currentKey]
        refine h.mapCell _ fun c d hcd => ?_
        split
        · exact ⟨hcd.key, hcd.inNum, hcd.code, hcd.time, hcd.outputs, rfl⟩
        · exact ⟨hcd.key, hcd.inNum, hcd.code, hcd.time, .nil, hcd.clearOnNext⟩
      · split
        · exact h.pushOutput _
        · split
          · exact h.pushOutput _
          · exact h

/-! ## A block that a stream is added to -/

theorem Output.withText_plain (o : Output) (capped : Text × Bool) :
    (o.withText capped).plain = o.plain := by
  obtain ⟨id, shown⟩ := o
  cases shown <;> rfl

theorem Output.withText_text {cls : OutputClass} (h : isBlock cls o = true) (capped : Text × Bool) :
    (o.withText capped).text = capped.1 ∧ (o.withText capped).truncated = (o.truncated || capped.2) := by
  obtain ⟨id, shown⟩ := o
  cases shown with
  | text => exact ⟨rfl, rfl⟩
  | image => cases h
  | input => cases h

/-- `o` is appended to and will show what `text` ends with; `p` was cut at each chunk. -/
structure Growing (o : Output) (text : Text) (p : Output) : Prop where
  plain : o.plain = p.plain
  truncated : o.truncated = true → p.truncated = true
  cut : p.truncated = true → o.truncated = true ∨ MAX_OUTPUT_CHARS < text.length
  tails : Tails text p.text
  whole : p.truncated = false → text = p.text

theorem AlikeOut.growing (h : AlikeOut o p) : Growing o o.text p where
  plain := h.plain
  truncated ht := h.truncated ▸ ht
  cut hp := .inl (h.truncated ▸ hp)
  tails := h.tails
  whole := h.whole

/-- A chunk is added to both: what is shown then is short, or known to be cut. -/
theorem Growing.merge {cls : OutputClass} {text : Text} (h : Growing o text p)
    (hp : isBlock cls p = true) (chunk : Text) :
    Growing o (text ++ chunk) (p.withText (capText (p.text ++ chunk))) ∧
      ((p.withText (capText (p.text ++ chunk))).truncated = false →
        (text ++ chunk).length ≤ MAX_OUTPUT_CHARS) := by
  obtain ⟨htext, hflag⟩ := Output.withText_text hp (capText (p.text ++ chunk))
  have hshort : (p.withText (capText (p.text ++ chunk))).truncated = false →
      text = p.text ∧ (text ++ chunk).length ≤ MAX_OUTPUT_CHARS := by
    intro hnot
    rw [hflag, Bool.or_eq_false_iff] at hnot
    have hsame := h.whole hnot.1
    refine ⟨hsame, ?_⟩
    by_contra hlong
    rw [hsame, Nat.not_le, ← capText_flag, hnot.2] at hlong
    cases hlong
  refine ⟨⟨?_, fun ho => ?_, fun hcut => ?_, ?_, fun hnot => ?_⟩, fun hnot => (hshort hnot).2⟩
  · rw [h.plain, Output.withText_plain]
  · rw [hflag, h.truncated ho, Bool.true_or]
  · rw [hflag, Bool.or_eq_true, capText_flag] at hcut
    by_cases hpt : p.truncated = true
    · refine (h.cut hpt).imp_right fun hlong => ?_
      rw [List.length_append]
      exact Nat.lt_of_lt_of_le hlong (Nat.le_add_right _ _)
    · rw [h.whole (Bool.eq_false_iff.mpr hpt)]
      exact .inr (hcut.resolve_left hpt)
  · rw [htext]
    exact (h.tails.append chunk).of_suffix List.suffix_rfl (capText_suffix _)
  · obtain ⟨hsame, hlen⟩ := hshort hnot
    rw [htext, ← hsame, capText_short hlen]

/-- The block is done. -/
theorem Growing.close {cls : OutputClass} {text : Text} (h : Growing o text p)
    (ho : isBlock cls o = true) (hshort : p.truncated = false → text.length ≤ MAX_OUTPUT_CHARS) :
    AlikeOut (o.withText (capText text)) p := by
  obtain ⟨htext, hflag⟩ := Output.withText_text ho (capText text)
  refine ⟨?_, ?_, ?_, fun hnot => ?_⟩
  · rw [Output.withText_plain, h.plain]
  · rw [hflag, Bool.eq_iff_iff, Bool.or_eq_true, capText_flag]
    refine ⟨fun hcut => ?_, h.cut⟩
    by_contra hp
    have hlen := hshort (Bool.eq_false_iff.mpr hp)
    exact hcut.elim (fun ho => hp (h.truncated ho)) fun hlong => absurd hlong (Nat.not_lt.mpr hlen)
  · rw [htext]
    exact h.tails.of_suffix (capText_suffix _) List.suffix_rfl
  · rw [htext, capText_short (hshort hnot)]
    exact h.whole hnot

/-! ## The outputs of a run of stream messages -/

/-- What one stream message makes of a cell's outputs and the next output's id. -/
def streamStep (r : List Output × Nat) (msg : WireMessage) : List Output × Nat :=
  let cls := streamClass msg.content
  let chunk := msg.content.text.getD []
  match r.1.getLast?.filter (isBlock cls) with
  | some last => (r.1.dropLast ++ [last.withText (capText (last.text ++ chunk))], r.2)
  | none => (r.1 ++ [⟨r.2, .text cls (capText chunk).1 none (capText chunk).2⟩], r.2 + 1)

/-- The loop, beside the outputs after as many messages. -/
inductive Abreast (s : Streams) (r : List Output × Nat) : Prop where
  | closed (hopen : s.openAt = none) (hid : s.nextOutputId = r.2)
      (houtputs : Forall₂ AlikeOut s.outputs r.1)
  | appending {init init' : List Output} {o p : Output} {cls : OutputClass}
      (hopen : s.openAt = some init.length) (hid : s.nextOutputId = r.2)
      (hs : s.outputs = init ++ [o]) (hr : r.1 = init' ++ [p]) (hinit : Forall₂ AlikeOut init init')
      (hblock : isBlock cls o = true) (hgrowing : Growing o s.text p)
      (hshort : p.truncated = false → s.text.length ≤ MAX_OUTPUT_CHARS)

theorem modify_last {α : Type} (init : List α) (a : α) (f : α → α) :
    (init ++ [a]).modify init.length f = init ++ [f a] := by
  induction init with
  | nil => rfl
  | cons b init ih => simp [ih]

/-- What is open is shown as it is once it is done. -/
theorem Abreast.close {s : Streams} {r : List Output × Nat} (h : Abreast s r) :
    s.close.openAt = none ∧ s.close.nextOutputId = r.2 ∧ Forall₂ AlikeOut s.close.outputs r.1 := by
  cases h with
  | closed hopen hid houtputs =>
    have hclose : s.close = s := by simp only [Streams.close, hopen]
    rw [hclose]
    exact ⟨hopen, hid, houtputs⟩
  | @appending init init' o p cls hopen hid hs hr hinit hblock hgrowing hshort =>
    have hclose : s.close = { s with
        openAt := none, outputs := s.outputs.modify init.length (·.withText (capText s.text)) } := by
      simp only [Streams.close, hopen]
    rw [hclose]
    refine ⟨rfl, hid, ?_⟩
    dsimp only
    rw [hs, modify_last, hr]
    exact List.rel_append hinit (.cons (hgrowing.close hblock hshort) .nil)

theorem forall₂_split {α β : Type} {R : α → β → Prop} {as after : List α} {a : α} {bs : List β}
    (h : Forall₂ R (as ++ a :: after) bs) : ∃ bs' b after', bs = bs' ++ b :: after' ∧
      Forall₂ R as bs' ∧ R a b ∧ Forall₂ R after after' := by
  induction as generalizing bs with
  | nil =>
    cases h with
    | cons hab hrest => exact ⟨[], _, _, rfl, .nil, hab, hrest⟩
  | cons c as ih =>
    cases h with
    | cons hcd hrest =>
      obtain ⟨bs', b, after', rfl, has, hab, hafter⟩ := ih hrest
      exact ⟨_ :: bs', b, after', rfl, .cons hcd has, hab, hafter⟩

/-- A chunk that begins a block. -/
theorem Abreast.push {s : Streams} {r : List Output × Nat} (h : Abreast s r) {msg : WireMessage}
    (hs : s.outputs.getLast?.filter (isBlock (streamClass msg.content)) = none)
    (hr : r.1.getLast?.filter (isBlock (streamClass msg.content)) = none) :
    Abreast (s.add msg.content) (streamStep r msg) := by
  obtain ⟨-, hid, houtputs⟩ := h.close
  simp only [Streams.add, streamStep, hs, hr]
  have hblock : isBlock (streamClass msg.content)
      ⟨s.close.nextOutputId, .text (streamClass msg.content) [] none false⟩ = true := by
    simp [isBlock]
  refine .appending rfl (congrArg (· + 1) hid) rfl rfl houtputs
    hblock ⟨?_, nofun, fun hcut => ?_, ?_, fun hnot => ?_⟩ fun hnot => ?_
  · rw [hid]
    rfl
  · exact .inr ((capText_flag _).mp hcut)
  · exact (Tails.refl _).of_suffix List.suffix_rfl (capText_suffix _)
  · have hlen : (msg.content.text.getD []).length ≤ MAX_OUTPUT_CHARS := by
      by_contra hlong
      rw [Nat.not_le, ← capText_flag] at hlong
      exact absurd hlong (Bool.eq_false_iff.mp hnot)
    exact (congrArg Prod.fst (capText_short hlen)).symm
  · by_contra hlong
    rw [Nat.not_le, ← capText_flag] at hlong
    exact absurd hlong (Bool.eq_false_iff.mp hnot)

theorem Abreast.add {s : Streams} {r : List Output × Nat} (h : Abreast s r) (msg : WireMessage) :
    Abreast (s.add msg.content) (streamStep r msg) := by
  have hsame : ∀ {o p : Output}, o.plain = p.plain →
      isBlock (streamClass msg.content) o = isBlock (streamClass msg.content) p := by
    intro o p hplain
    rw [← isBlock_plain, hplain, isBlock_plain]
  cases hcases : h with
  | closed hopen hid houtputs =>
    rcases List.eq_nil_or_concat s.outputs with hnil | ⟨init, o, hs⟩
    · rw [hnil, List.forall₂_nil_left_iff] at houtputs
      exact h.push (by rw [hnil]; rfl) (by rw [houtputs]; rfl)
    · rw [List.concat_eq_append] at hs
      rw [hs] at houtputs
      obtain ⟨init', p, rest, hr, hinit, hop, hrest⟩ := forall₂_split houtputs
      obtain rfl := List.forall₂_nil_left_iff.mp hrest
      by_cases hblock : isBlock (streamClass msg.content) o = true
      · have hblock' := (hsame hop.plain).symm.trans hblock
        obtain ⟨hgrowing, hshort⟩ := hop.growing.merge hblock' (msg.content.text.getD [])
        simp only [Streams.add, streamStep, hs, hr, List.getLast?_concat, Option.filter_some, hblock,
          hblock', if_true, hopen, List.dropLast_concat]
        exact .appending (by simp) hid rfl rfl hinit hblock hgrowing hshort
      · have hblock' : ¬ isBlock (streamClass msg.content) p = true := by rwa [← hsame hop.plain]
        refine h.push ?_ ?_
        · rw [hs, List.getLast?_concat, Option.filter_some, if_neg hblock]
        · rw [hr, List.getLast?_concat, Option.filter_some, if_neg hblock']
  | @appending init init' o p cls hopen hid hs hr hinit hcls hgrowing hshort =>
    by_cases hblock : isBlock (streamClass msg.content) o = true
    · have hblock' := (hsame hgrowing.plain).symm.trans hblock
      obtain ⟨hgrowing', hshort'⟩ := hgrowing.merge hblock' (msg.content.text.getD [])
      simp only [Streams.add, streamStep, hs, hr, List.getLast?_concat, Option.filter_some, hblock,
        hblock', if_true, hopen, List.dropLast_concat]
      rw [if_neg nofun]
      exact .appending rfl hid rfl rfl hinit hblock hgrowing' hshort'
    · have hblock' : ¬ isBlock (streamClass msg.content) p = true := by
        rwa [← hsame hgrowing.plain]
      refine h.push ?_ ?_
      · rw [hs, List.getLast?_concat, Option.filter_some, if_neg hblock]
      · rw [hr, List.getLast?_concat, Option.filter_some, if_neg hblock']

theorem Abreast.run {s : Streams} {r : List Output × Nat} (h : Abreast s r)
    (run : List WireMessage) :
    Abreast (run.foldl (fun s msg => s.add msg.content) s) (run.foldl streamStep r) := by
  induction run generalizing s r with
  | nil => exact h
  | cons msg run ih => exact ih (h.add msg)

/-! ## The cell the messages attach to -/

/-- The only cell of the current key. -/
structure Here (t : Transcript) (before : List Cell) (c : Cell) (after : List Cell) : Prop where
  cells : t.cells = before ++ c :: after
  current : t.currentKey = some c.key
  others : ∀ d ∈ before ++ after, d.key ≠ c.key

variable {before after : List Cell}

theorem Here.hasCell (h : Here t before c after) : t.hasCell t.currentKey = true := by
  simp [Transcript.hasCell, h.cells, h.current]

theorem Here.find (h : Here t before c after) :
    t.cells.find? (fun d => some d.key = t.currentKey) = some c := by
  rw [h.cells, h.current, List.find?_append, List.find?_eq_none.mpr, Option.none_or,
    List.find?_cons_of_pos (by simp)]
  intro d hd
  simpa using h.others d (List.mem_append_left _ hd)

theorem Here.mapCell (h : Here t before c after) (fn : Cell → Cell) :
    t.mapCell t.currentKey fn = { t with cells := before ++ fn c :: after } := by
  have hsame : ∀ cells : List Cell, (∀ d ∈ cells, d.key ≠ c.key) →
      cells.map (fun d => if some d.key = some c.key then fn d else d) = cells := by
    intro cells hcells
    rw [List.map_congr_left (g := id), List.map_id]
    intro d hd
    rw [if_neg fun hkey => hcells d hd (Option.some.inj hkey)]
    rfl
  rw [Transcript.mapCell, if_pos h.hasCell, h.cells, h.current, List.map_append, List.map_cons,
    if_pos rfl, hsame before fun d hd => h.others d (List.mem_append_left _ hd),
    hsame after fun d hd => h.others d (List.mem_append_right _ hd)]

/-- The transcript where the cell shows these outputs. -/
def withOutputs (t : Transcript) (before : List Cell) (c : Cell) (after : List Cell)
    (r : List Output × Nat) : Transcript :=
  { t with
    cells := before ++ { c with clearOnNext := false, outputs := r.1 } :: after
    nextOutputId := r.2 }

theorem Here.withOutputs (h : Here t before c after) (r : List Output × Nat) :
    Here (t.withOutputs before c after r) before { c with clearOnNext := false, outputs := r.1 }
      after :=
  ⟨rfl, h.current, h.others⟩

/-- The outputs a stream message is added to. -/
def shownOutputs (c : Cell) : List Output := if c.clearOnNext then [] else c.outputs

theorem Here.applyStream (h : Here t before c after) {msg : WireMessage}
    (hmsg : msg.msgType = "stream") : t.applyMessage msg =
      t.withOutputs before c after (streamStep (shownOutputs c, t.nextOutputId) msg) := by
  rw [applyMessage, if_pos hmsg, Transcript.applyStream]
  simp only [h.find, Transcript.withOutputs, streamStep, shownOutputs]
  cases hclear : c.clearOnNext with
  | true =>
    simp [Option.filter_some, Transcript.pushOutput, h.hasCell, h.mapCell, hclear]
  | false =>
    cases hlast : c.outputs.getLast?.filter (isBlock (streamClass msg.content)) with
    | some last =>
      simp [Option.filter_some, h.mapCell, hclear, hlast]
    | none =>
      simp [Option.filter_some, Transcript.pushOutput, h.hasCell, h.mapCell, hclear, hlast]

theorem Here.foldl (h : Here t before c after) {run : List WireMessage}
    (hrun : ∀ msg ∈ run, msg.msgType = "stream") (r : List Output × Nat) :
    run.foldl applyMessage (t.withOutputs before c after r) =
      t.withOutputs before c after (run.foldl streamStep r) := by
  induction run generalizing r with
  | nil => rfl
  | cons msg run ih =>
    have hstep := (h.withOutputs r).applyStream (hrun msg List.mem_cons_self)
    rw [List.foldl_cons, hstep, List.foldl_cons, ← ih (fun m hm => hrun m (List.mem_cons_of_mem _ hm))]
    rfl

theorem Here.applyStreams (h : Here t before c after) (run : List WireMessage) :
    t.applyStreams run = t.withOutputs before c after
      (let s := (run.foldl (fun s msg => s.add msg.content)
        { outputs := shownOutputs c, nextOutputId := t.nextOutputId : Streams }).close
      (s.outputs, s.nextOutputId)) := by
  rw [Transcript.applyStreams, h.find]
  dsimp only
  rw [← h.current, h.mapCell]
  rfl

/-- No cell has the current key. -/
theorem applyStream_nowhere (h : t.hasCell t.currentKey = false) {msg : WireMessage}
    (hmsg : msg.msgType = "stream") : t.applyMessage msg = t := by
  have hfind : t.cells.find? (fun d => some d.key = t.currentKey) = none := by
    rw [List.find?_eq_none]
    intro d hd
    have hnone := List.any_eq_false.mp h d hd
    simpa using hnone
  rw [applyMessage, if_pos hmsg, Transcript.applyStream, hfind]
  simp [Transcript.pushOutput, h]

theorem forall₂_mem_right {α β : Type} {R : α → β → Prop} {as : List α} {bs : List β} {b : β}
    (h : Forall₂ R as bs) (hb : b ∈ bs) : ∃ a ∈ as, R a b := by
  induction h with
  | nil => cases hb
  | @cons a b' as bs hab _ ih =>
    rcases List.mem_cons.mp hb with rfl | hb
    · exact ⟨a, List.mem_cons_self, hab⟩
    · obtain ⟨a', ha', hab'⟩ := ih hb
      exact ⟨a', List.mem_cons_of_mem _ ha', hab'⟩

def keys (t : Transcript) : List String := t.cells.map Cell.key

theorem mapCell_keys (key : Option String) {fn : Cell → Cell} (hfn : ∀ c, (fn c).key = c.key) :
    (t.mapCell key fn).keys = t.keys := by
  unfold Transcript.mapCell
  split
  · simp only [keys, List.map_map]
    refine List.map_congr_left fun c _ => ?_
    simp only [Function.comp]
    split
    · exact hfn c
    · rfl
  · rfl

theorem pushOutput_keys (output : NewOutput) : (t.pushOutput output).keys = t.keys := by
  unfold Transcript.pushOutput
  split
  · exact mapCell_keys _ fun _ => rfl
  · rfl

/-- No message changes the keys. -/
theorem applyMessage_keys (msg : WireMessage) : (t.applyMessage msg).keys = t.keys := by
  unfold applyMessage
  dsimp only
  split
  · unfold Transcript.applyStream
    dsimp only
    split
    · exact mapCell_keys _ fun _ => rfl
    · exact pushOutput_keys _
  · split
    · split
      · exact pushOutput_keys _
      · rfl
    · split
      · split
        · rfl
        · split
          · simp only [keys, List.map_map]
            refine List.map_congr_left fun c _ => ?_
            simp only [Function.comp]
            split <;> rfl
          · exact pushOutput_keys _
      · split
        · refine mapCell_keys _ fun c => ?_
          split <;> rfl
        · split
          · exact pushOutput_keys _
          · split
            · exact pushOutput_keys _
            · rfl

theorem Here.withOutputs_keys (h : Here t before c after) (r : List Output × Nat) :
    (t.withOutputs before c after r).keys = t.keys := by
  simp [keys, Transcript.withOutputs, h.cells]

/-- Where output messages attach to. -/
theorem exists_here (hkeys : t.keys.Nodup) (h : t.hasCell t.currentKey = true) :
    ∃ before c after, Here t before c after := by
  obtain ⟨c, hc, hkey⟩ := List.any_eq_true.mp h
  obtain ⟨before, after, hcells⟩ := List.append_of_mem hc
  refine ⟨before, c, after, hcells, (of_decide_eq_true hkey).symm, fun d hd hsame => ?_⟩
  rw [keys, hcells, List.map_append, List.map_cons, List.nodup_middle, List.nodup_cons,
    ← List.map_append] at hkeys
  exact hkeys.1 (hsame ▸ List.mem_map_of_mem hd)

theorem applyStreams_nowhere (h : t.hasCell t.currentKey = false) (run : List WireMessage) :
    t.applyStreams run = t := by
  have hfind : t.cells.find? (fun d => some d.key = t.currentKey) = none := by
    rw [List.find?_eq_none]
    intro d hd
    have hnone := List.any_eq_false.mp h d hd
    simpa using hnone
  rw [Transcript.applyStreams, hfind]

theorem applyStreams_keys (hkeys : t.keys.Nodup) (run : List WireMessage) :
    (t.applyStreams run).keys = t.keys := by
  cases h : t.hasCell t.currentKey with
  | true =>
    obtain ⟨before, c, after, hhere⟩ := exists_here hkeys h
    rw [hhere.applyStreams, hhere.withOutputs_keys]
  | false => rw [applyStreams_nowhere h]

theorem foldl_nowhere (h : t.hasCell t.currentKey = false) {run : List WireMessage}
    (hrun : ∀ msg ∈ run, msg.msgType = "stream") : run.foldl applyMessage t = t := by
  induction run with
  | nil => rfl
  | cons msg run ih =>
    rw [List.foldl_cons, applyStream_nowhere h (hrun msg List.mem_cons_self)]
    exact ih fun m hm => hrun m (List.mem_cons_of_mem _ hm)

/-- The cell at the same place. -/
theorem Alike.here (h : Alike t u) (ht : Here t before c after) : ∃ before' d after',
    Here u before' d after' ∧ Forall₂ AlikeCell before before' ∧ AlikeCell c d ∧
      Forall₂ AlikeCell after after' := by
  have hcells := h.cells
  rw [ht.cells] at hcells
  obtain ⟨before', d, after', hu, hbefore, hcd, hafter⟩ := forall₂_split hcells
  refine ⟨before', d, after', ⟨hu, ?_, ?_⟩, hbefore, hcd, hafter⟩
  · rw [← h.currentKey, ht.current, hcd.key]
  · intro e he
    rcases List.mem_append.mp he with he | he
    · obtain ⟨e', he', hee⟩ := forall₂_mem_right hbefore he
      rw [← hee.key, ← hcd.key]
      exact ht.others e' (List.mem_append_left _ he')
    · obtain ⟨e', he', hee⟩ := forall₂_mem_right hafter he
      rw [← hee.key, ← hcd.key]
      exact ht.others e' (List.mem_append_right _ he')

/-- A run of stream messages, in one pass and one by one. -/
theorem applyStreams_alike (h : Alike t u) (hkeys : t.keys.Nodup) {msg : WireMessage}
    {run : List WireMessage} (hrun : ∀ m ∈ msg :: run, m.msgType = "stream") :
    Alike (t.applyStreams (msg :: run)) ((msg :: run).foldl applyMessage u) := by
  cases hcell : t.hasCell t.currentKey with
  | false =>
    rw [applyStreams_nowhere hcell, foldl_nowhere (by rw [← h.currentKey, ← h.hasCell, hcell]) hrun]
    exact h
  | true =>
    obtain ⟨before, c, after, ht⟩ := exists_here hkeys hcell
    obtain ⟨before', d, after', hu, hbefore, hcd, hafter⟩ := h.here ht
    rw [ht.applyStreams, List.foldl_cons (f := applyMessage), hu.applyStream (hrun msg List.mem_cons_self),
      hu.foldl fun m hm => hrun m (List.mem_cons_of_mem _ hm)]
    have hstart : Abreast { outputs := shownOutputs c, nextOutputId := t.nextOutputId }
        (shownOutputs d, u.nextOutputId) := by
      refine .closed rfl h.nextOutputId ?_
      unfold shownOutputs
      rw [← hcd.clearOnNext]
      split
      · exact .nil
      · exact hcd.outputs
    obtain ⟨-, hid, houtputs⟩ := (hstart.run (msg :: run)).close
    refine ⟨List.rel_append hbefore (.cons ?_ hafter), h.currentKey, hid⟩
    exact ⟨hcd.key, hcd.inNum, hcd.code, hcd.time, houtputs, rfl⟩

/-- **Several messages at once are several messages**: the same cells, with the same blocks under
the same ids and cut alike, and where a block was cut, tails of one text. -/
theorem applyMessages_alike (t : Transcript) (hkeys : t.keys.Nodup) (msgs : List WireMessage) :
    Alike (t.applyMessages msgs) (msgs.foldl applyMessage t) := by
  suffices hall : ∀ t u : Transcript, Alike t u → t.keys.Nodup →
      Alike (t.applyMessages msgs) (msgs.foldl applyMessage u) from hall t t (.refl t) hkeys
  clear t hkeys
  induction hn : msgs.length using Nat.strong_induction_on generalizing msgs with
  | _ n ih =>
    intro t u h hkeys
    cases msgs with
    | nil =>
      rw [applyMessages]
      exact h
    | cons msg rest =>
      rw [applyMessages]
      by_cases hstream : isStream msg = true
      · rw [if_pos hstream]
        have hrun : ∀ m ∈ msg :: rest.takeWhile isStream, m.msgType = "stream" := by
          intro m hm
          rcases List.mem_cons.mp hm with rfl | hm
          · exact of_decide_eq_true hstream
          · have hm' := List.mem_takeWhile_imp hm
            exact of_decide_eq_true hm'
        have hlen : (rest.dropWhile isStream).length < n :=
          hn ▸ Nat.lt_succ_of_le (List.length_dropWhile_le isStream rest)
        have hrest := ih _ hlen _ rfl _ _ (applyStreams_alike h hkeys hrun)
          (by rwa [applyStreams_keys hkeys])
        rwa [← List.foldl_append, List.cons_append, List.takeWhile_append_dropWhile] at hrest
      · rw [if_neg hstream]
        have hmsg : msg.msgType ≠ "stream" := fun heq => hstream (decide_eq_true heq)
        exact ih _ (hn ▸ Nat.lt_succ_self _) _ rfl _ _ (applyMessage_alike h hmsg)
          (by rwa [applyMessage_keys])

def oneCell : Transcript where
  cells := [{ key := "c1", inNum := 1, code := [], time := 0, outputs := [] }]
  currentKey := some "c1"
  nextOutputId := 1

/-- Two streams that take turns, and a block that is cleared when more comes. -/
def turns : List WireMessage :=
  [{ msgType := "stream", content := { text := some [97] } },
    { msgType := "stream", content := { name := some "stderr", text := some [98] } },
    { msgType := "clear_output", content := { wait := true } },
    { msgType := "stream", content := { text := some [99] } }]

theorem applyMessages_alike_turns :
    oneCell.keys.Nodup ∧ Alike (oneCell.applyMessages turns) (turns.foldl applyMessage oneCell) :=
  ⟨by decide, applyMessages_alike oneCell (by decide) turns⟩

end Jovian.Transcript
