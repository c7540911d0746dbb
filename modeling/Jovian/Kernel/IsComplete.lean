import Jovian.Kernel.ErrorMessage

/-!
# IsComplete — whether Stata code may be run (`isComplete`)

A cell is scanned line by line. What goes on from one line to the next is the depth of comments and
of braces, and whether the line is continued; strings end with their line.

* `scan_append` — a brace that closes nothing is found again whatever comes after it.
* **`complete_pieces`** — a complete piece leaves nothing open, and nothing repairs an invalid one.
-/

namespace Jovian.StataText

open EchoFilter (Text isSpace trim)

/-! ## The scanner -/

inductive Completeness where
  | complete | incomplete | invalid
deriving DecidableEq

/-- What goes on from one line to the next. -/
structure Between where
  /-- Comments nest in Stata. -/
  commentDepth : Nat := 0
  braces : Nat := 0
  /-- The last line with anything on it ended in `///`. -/
  continued : Bool := false
deriving DecidableEq

structure Within extends Between where
  inString : Bool := false
  /-- Compound quotes nest. -/
  compound : Nat := 0
  sawCode : Bool := false

/-- What a round of the scanner's loop does: it returns, leaves the line, or goes on by one character
or by two. -/
inductive Move where
  | invalid
  | stop (m : Within)
  | one (m : Within)
  | two (m : Within)

def quote : Char := '\x22'

def backtick : Char := '\x60'

def apostrophe : Char := '\x27'

/-- The end of a round, at a character of the code. -/
def moveInCode (m : Within) (c : Char) (next : Option Char) : Move :=
  if c = backtick ∧ next = some quote then .two { m with compound := 1 }
  else if c = quote then .one { m with inString := true }
  else if c = '{' then .one { m with braces := m.braces + 1 }
  else if c = '}' then if m.braces = 0 then .invalid else .one { m with braces := m.braces - 1 }
  else .one m

/-- A round of the loop at `c`, with the character before it and the two after it. -/
def move (m : Within) (prev : Option Char) (c : Char) (next third : Option Char) : Move :=
  if 0 < m.commentDepth then
    if c = '*' ∧ next = some '/' then .two { m with commentDepth := m.commentDepth - 1 }
    else if c = '/' ∧ next = some '*' then .two { m with commentDepth := m.commentDepth + 1 }
    else .one m
  else if m.inString then
    .one (if c = quote then { m with inString := false } else m)
  else if 0 < m.compound then
    if c = backtick ∧ next = some quote then .two { m with compound := m.compound + 1 }
    else if c = quote ∧ next = some apostrophe then .two { m with compound := m.compound - 1 }
    else .one m
  else if isSpace c then .one m
  -- a line whose first character is * is a comment
  else if m.sawCode = false ∧ c = '*' then .stop m
  else if c = '/' ∧ next = some '*' then .two { m with commentDepth := m.commentDepth + 1 }
  -- // and /// start a comment only at the start of a line or after a blank
  else if c = '/' ∧ next = some '/' ∧ prev.all isSpace then
    .stop (if third = some '/' then { m with continued := true } else m)
  else moveInCode { m with sawCode := true } c next

/-- The loop over a line; nothing where the code is invalid. -/
def scan (m : Within) (prev : Option Char) : Text → Option Within
  | [] => some m
  | c :: rest =>
    match move m prev c rest.head? rest.tail.head? with
    | .invalid => none
    | .stop m => some m
    | .one m => scan m (some c) rest
    | .two m =>
      match rest with
      | [] => some m
      | next :: rest => scan m (some next) rest

def scanLine (m : Between) (line : Text) : Option Between :=
  if m.commentDepth = 0 ∧ trim line = [] then some m
  else (scan { m with continued := false } none line).map Within.toBetween

def isComplete (code : Text) : Completeness :=
  match (splitLines code).foldlM scanLine {} with
  | none => .invalid
  | some m => if 0 < m.commentDepth ∨ 0 < m.braces ∨ m.continued then .incomplete else .complete

/-! ## Within a line -/

theorem moveInCode_invalid_iff {m : Within} {next : Option Char} {c : Char} :
    moveInCode m c next = .invalid ↔ m.braces = 0 ∧ c = '}' := by
  constructor
  · intro h
    simp only [moveInCode] at h
    split_ifs at h with _ _ _ hc hbraces
    exact ⟨hbraces, hc⟩
  · rintro ⟨hbraces, rfl⟩
    simp [moveInCode, hbraces, backtick, quote]

/-- A brace that closes nothing is seen from the brace and what is open. -/
theorem move_invalid_iff {m : Within} {prev next third : Option Char} {c : Char} :
    move m prev c next third = .invalid ↔
      m.commentDepth = 0 ∧ m.inString = false ∧ m.compound = 0 ∧ m.braces = 0 ∧ c = '}' := by
  constructor
  · intro h
    simp only [move] at h
    split_ifs at h with hcomment _ _ hstring hcompound
    obtain ⟨hbraces, hc⟩ := moveInCode_invalid_iff.mp h
    exact ⟨Nat.eq_zero_of_not_pos hcomment, Bool.eq_false_iff.mpr hstring,
      Nat.eq_zero_of_not_pos hcompound, hbraces, hc⟩
  · rintro ⟨hcomment, hstring, hcompound, hbraces, rfl⟩
    simp [move, moveInCode, hcomment, hstring, hcompound, hbraces, isSpace, backtick, quote]

/-- The character after the next is read only where the line is left. -/
theorem move_third {m : Within} {prev next third : Option Char} {c : Char} (third' : Option Char)
    (h : ∀ m', move m prev c next third ≠ .stop m') :
    move m prev c next third' = move m prev c next third := by
  by_cases hslash : c = '/' ∧ next = some '/' ∧ prev.all isSpace
  · obtain ⟨rfl, rfl, hprev⟩ := hslash
    by_cases hcomment : 0 < m.commentDepth
    · simp only [move, if_pos hcomment]
    · by_cases hstring : m.inString
      · simp only [move, if_neg hcomment, if_pos hstring]
      · by_cases hcompound : 0 < m.compound
        · simp only [move, if_neg hcomment, if_neg hstring, if_pos hcompound]
        · -- a comment begins here, and the line is left
          refine absurd ?_ (h (if third = some '/' then { m with continued := true } else m))
          simp [move, hcomment, hstring, hcompound, hprev, isSpace]
  · simp only [move, if_neg hslash]

theorem scan_invalid {m : Within} {prev next third : Option Char} {c : Char}
    (h : move m prev c next third = .invalid) (rest : Text) : scan m prev (c :: rest) = none := by
  have hmove : move m prev c rest.head? rest.tail.head? = .invalid :=
    move_invalid_iff.mpr (move_invalid_iff.mp h)
  rw [scan, hmove]

/-- What makes a line invalid does so however the line goes on. -/
theorem scan_append {m : Within} {prev : Option Char} {line : Text} (more : Text)
    (h : scan m prev line = none) : scan m prev (line ++ more) = none := by
  -- two characters at a time, as the scanner goes; the one after them is read only where it stops
  induction line using List.twoStepInduction generalizing m prev with
  | nil => cases h
  | singleton c =>
    rw [scan] at h
    split at h
    · next hmove => exact scan_invalid hmove more
    · cases h
    · cases h
    · cases h
  | cons_cons c next line ih ihnext =>
    rw [scan] at h
    split at h
    · next hmove => exact scan_invalid hmove _
    · cases h
    · next m' hmove =>
      rw [List.head?_cons, List.tail_cons] at hmove
      have hsame : move m prev c (some next) (line ++ more).head? = .one m' :=
        (move_third _ (by rw [hmove]; nofun)).trans hmove
      show scan m prev (c :: next :: (line ++ more)) = none
      rw [scan]
      simp only [List.head?_cons, List.tail_cons, hsame]
      exact ihnext next h
    · next m' hmove =>
      rw [List.head?_cons, List.tail_cons] at hmove
      have hsame : move m prev c (some next) (line ++ more).head? = .two m' :=
        (move_third _ (by rw [hmove]; nofun)).trans hmove
      show scan m prev (c :: next :: (line ++ more)) = none
      rw [scan]
      simp only [List.head?_cons, List.tail_cons, hsame]
      exact ih h

/-! ## Over the lines -/

theorem trim_append_ne_nil {line : Text} (h : trim line ≠ []) (more : Text) : trim (line ++ more) ≠ [] := by
  rw [Ne, EchoFilter.trim_eq_nil_iff, List.all_append, Bool.and_eq_true, ← EchoFilter.trim_eq_nil_iff]
  exact fun hboth => h hboth.1

theorem scanLine_append {m : Between} {line : Text} (more : Text) (h : scanLine m line = none) :
    scanLine m (line ++ more) = none := by
  rw [scanLine] at h ⊢
  split at h
  · cases h
  · next hblank =>
    have hblank' : ¬ (m.commentDepth = 0 ∧ trim (line ++ more) = []) := fun hboth =>
      trim_append_ne_nil (fun hnil => hblank ⟨hboth.1, hnil⟩) more hboth.2
    rw [Option.map_eq_none_iff] at h
    rw [if_neg hblank', scan_append more h]
    rfl

theorem ended_append_line (line more : Text) :
    ∃ rest, Lines.ended (line ++ more) = Lines.ended line ++ rest := by
  by_cases hmore : more = []
  · exact ⟨[], by rw [hmore, List.append_nil, List.append_nil]⟩
  · obtain ⟨cr, -, hline⟩ := ended_append line
    have hended : Lines.ended (line ++ more) = line ++ Lines.ended more := by
      rw [Lines.ended, Lines.ended, List.getLast?_append_of_ne_nil _ hmore,
        List.dropLast_append_of_ne_nil hmore]
      split <;> rfl
    exact ⟨cr ++ Lines.ended more, by rw [hended, ← List.append_assoc, ← hline]⟩

theorem splitLines_first (b : Text) {line : Text} (h : '\n' ∉ line) (hne : line ≠ []) :
    ∃ rest below, splitLines (line ++ b) = (Lines.ended line ++ rest) :: below := by
  induction b using lines_induction with
  | rest more hmore =>
    obtain ⟨rest, hrest⟩ := ended_append_line line more
    have hnot : '\n' ∉ line ++ more := by simp [h, hmore]
    refine ⟨rest, [], ?_⟩
    rw [splitLines_rest hnot, if_neg (by simp [hne]), hrest]
  | line more b hmore _ =>
    obtain ⟨rest, hrest⟩ := ended_append_line line more
    have hnot : '\n' ∉ line ++ more := by simp [h, hmore]
    refine ⟨rest, splitLines b, ?_⟩
    rw [← List.append_assoc, splitLines_line hnot, hrest]

/-- The lines of a text that is followed by a newline: there may be an empty one more. -/
theorem splitLines_newline (a b : Text) : splitLines (a ++ '\n' :: b) = splitLines a ++ splitLines b ∨
    splitLines (a ++ '\n' :: b) = splitLines a ++ [] :: splitLines b := by
  induction a using lines_induction with
  | rest line h =>
    rw [splitLines_line h, splitLines_rest h]
    by_cases hline : line = []
    · subst hline
      exact .inr rfl
    · rw [if_neg hline]
      exact .inl rfl
  | line line a h ih =>
    rw [List.append_assoc, List.cons_append, splitLines_line h, splitLines_line h]
    exact ih.imp (congrArg _) (congrArg _)

theorem invalid_append {m : Between} {a : Text} (b : Text) (h : (splitLines a).foldlM scanLine m = none) :
    (splitLines (a ++ b)).foldlM scanLine m = none := by
  induction a using lines_induction generalizing m with
  | rest line hline =>
    rw [splitLines_rest hline] at h
    split at h
    · cases h
    · next hne =>
      -- the line goes on into `b`
      have hscan : scanLine m (Lines.ended line) = none := by
        cases hscan : scanLine m (Lines.ended line) with
        | none => rfl
        | some m' => simp [hscan] at h
      obtain ⟨rest, below, hlines⟩ := splitLines_first b hline hne
      rw [hlines, List.foldlM_cons, scanLine_append rest hscan]
      rfl
  | line line a hline ih =>
    rw [List.append_assoc, List.cons_append, splitLines_line hline, List.foldlM_cons]
    rw [splitLines_line hline, List.foldlM_cons] at h
    cases hscan : scanLine m (Lines.ended line) with
    | none => rfl
    | some m' =>
      rw [hscan] at h
      exact ih h

theorem isComplete_iff {code : Text} :
    isComplete code = .complete ↔ (splitLines code).foldlM scanLine {} = some {} := by
  rw [isComplete]
  constructor
  · intro h
    split at h
    · cases h
    · next m hscan =>
      split at h
      · cases h
      · next hopen =>
        obtain ⟨commentDepth, braces, continued⟩ := m
        simp only [Nat.pos_iff_ne_zero, not_or, ne_eq, not_not, Bool.not_eq_true] at hopen
        obtain ⟨rfl, rfl, rfl⟩ := hopen
        exact hscan
  · intro h
    rw [h]
    rfl

theorem isComplete_invalid_iff {code : Text} :
    isComplete code = .invalid ↔ (splitLines code).foldlM scanLine {} = none := by
  rw [isComplete]
  split
  · next h => simp [h]
  · next m h => split <;> simp [h]

/-- What comes after a complete piece is read as if it were alone. -/
theorem isComplete_append {a : Text} (b : Text) (h : isComplete a = .complete) :
    isComplete (a ++ '\n' :: b) = isComplete b := by
  rw [isComplete_iff] at h
  have hlines : (splitLines (a ++ '\n' :: b)).foldlM scanLine {} = (splitLines b).foldlM scanLine {} := by
    rcases splitLines_newline a b with heq | heq
    · rw [heq, List.foldlM_append, h]
      rfl
    · rw [heq, List.foldlM_append, h]
      rfl
  simp only [isComplete, hlines]

/-- A complete piece leaves nothing open, and nothing repairs an invalid one. -/
theorem complete_pieces (a b : Text) :
    (isComplete a = .complete → isComplete (a ++ '\n' :: b) = isComplete b) ∧
      (isComplete a = .invalid → isComplete (a ++ b) = .invalid) ∧
      ∀ pieces : List Text, (∀ piece ∈ pieces, isComplete piece = .complete) →
        isComplete (['\n'].intercalate pieces) = .complete := by
  refine ⟨isComplete_append b, fun h => ?_, fun pieces hpieces => ?_⟩
  · rw [isComplete_invalid_iff] at h ⊢
    exact invalid_append b h
  · induction pieces with
    | nil => rfl
    | cons piece pieces ih =>
      cases pieces with
      | nil =>
        rw [List.intercalate_singleton]
        exact hpieces piece (List.mem_singleton.mpr rfl)
      | cons next pieces =>
        rw [List.intercalate_cons_cons, List.append_assoc, List.singleton_append,
          isComplete_append _ (hpieces piece List.mem_cons_self)]
        exact ih fun piece hpiece => hpieces piece (List.mem_cons_of_mem _ hpiece)

theorem complete_pieces_block :
    isComplete ("if 1 \x7b".toList ++ "\n\x7d".toList ++ '\n' :: "display 1 ///".toList) = .incomplete ∧
      isComplete ("\x7d".toList ++ "\x7b".toList) = .invalid := by
  refine ⟨?_, (complete_pieces "\x7d".toList "\x7b".toList).2.1 (by decide)⟩
  exact ((complete_pieces ("if 1 \x7b".toList ++ "\n\x7d".toList) "display 1 ///".toList).1 (by decide)).trans
    (by decide)

end Jovian.StataText
