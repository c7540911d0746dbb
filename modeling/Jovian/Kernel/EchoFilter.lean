import Mathlib.Data.List.TakeWhile
import Jovian.Lib.Transducer

/-!
# EchoFilter — what a do-file's output shows

Stata echoes the commands of a do-file: the filter of the kernel takes the echo out of the output,
a chunk at a time. A line is classified when its newline comes (`line`); the start of one that
cannot be echo goes out at the end of its chunk (`early`).

* `line_eq` — what a line does is told by its `kind` and by what the filter expects.
* **`torn_iff`** — where the end of a chunk is wrong: the start of a line goes out that is not shown
  whole (`Torn`).
-/

namespace Jovian.EchoFilter

/-- A `Char` stands for one `char`. -/
abbrev Text := List Char

/-! ## Characters and words -/

def isSpace (c : Char) : Bool := c = ' ' ∨ ('\t' ≤ c ∧ c ≤ '\r')

def isDigit (c : Char) : Bool := '0' ≤ c ∧ c ≤ '9'

/-- A `.` of a regular expression. -/
def isPlain (c : Char) : Bool := c ≠ '\n' ∧ c ≠ '\r'

def trim (text : Text) : Text :=
  ((text.dropWhile isSpace).reverse.dropWhile isSpace).reverse

/-- The text before the first `mark`. -/
def before (mark : Text) : Text → Option Text
  | [] => none
  | c :: rest => if mark.isPrefixOf (c :: rest) then some [] else (before mark rest).map (c :: ·)

/-- The next word of a stream, and what follows it. -/
def word (text : Text) : Text × Text := (text.dropWhile isSpace).span (!isSpace ·)

/-! ## The rules about lines -/

def isEchoLine (line : Text) : Bool := line = ['.'] ∨ ['.', ' '].isPrefixOf line

/-- `( .*)?$` -/
def afterDot : Text → Bool
  | [] => true
  | c :: rest => c = ' ' ∧ rest.all isPlain

/-- `\d*\.( .*)?$`; `cut` is whether the text may end before its dot. -/
def digits (cut : Bool) : Text → Bool
  | [] => cut
  | c :: rest => if c = '.' then afterDot rest else isDigit c && digits cut rest

/-- `^\s*\d+\.( .*)?$`; `cut` is whether the text may end before its dot. -/
def numberedUpTo (cut : Bool) : Text → Bool
  | [] => cut
  | c :: rest => if isSpace c then numberedUpTo cut rest else isDigit c && digits cut rest

def isNumberedLine (line : Text) : Bool := numberedUpTo false line

def mayBeNumbered (start : Text) : Bool := numberedUpTo true start

def opensNumberedLines (command : Text) : Bool :=
  let trimmed := trim command
  let trimmed := ((before [' ', '/', '/'] trimmed).map trim).getD trimmed
  if trimmed.getLast? = some '{' then true
  else
    let first := word trimmed
    let second := (word first.2).1
    if 2 ≤ first.1.length ∧ first.1.isPrefixOf "program".toList then
      second ≠ "drop".toList ∧ second ≠ "dir".toList ∧ second ≠ "list".toList
    else false

/-- `^r\(\d+\);$` -/
def isReturnCodeLine : Text → Bool
  | 'r' :: '(' :: d :: rest => isDigit d && rest.dropWhile isDigit = [')', ';']
  | _ => false

end Jovian.EchoFilter

namespace Jovian

open EchoFilter (Text)

structure EchoFilter where
  /-- The current line, not yet classified. -/
  partialLine : Text := []
  /-- The current line was found to be output: the rest goes out as it comes. -/
  passing : Bool := false
  /-- Blank lines held until we know whether an echo follows. -/
  blankLines : Nat := 0
  afterEcho : Bool := false
  /-- The lines of a block or program are being echoed. -/
  numbered : Bool := false
  continuable : Bool := false
  command : Text := []
  /-- The last line that went out. -/
  lastLine : Text := []
deriving DecidableEq

end Jovian

namespace Jovian.EchoFilter

/-! ## The filter -/

/-- Whether a `"> "` line goes on with the command or numbered line before it. -/
def continues (m : EchoFilter) : Bool := m.afterEcho || (m.numbered && m.continuable)

def mayBeEcho (m : EchoFilter) : Text → Bool
  | [] => true
  | c :: rest =>
    let atPrompt := rest = [] ∨ rest.head? = some ' '
    (c = '.' ∧ atPrompt) ∨ (m.continues ∧ c = '>' ∧ atPrompt) ∨
      (m.numbered ∧ mayBeNumbered (c :: rest)) ∨ (c = 'r' ∧ isReturnCodeLine m.lastLine)

def dropReturn (text : Text) : Text :=
  if text.getLast? = some '\r' then text.dropLast else text

/-- One complete line (without its newline), and what goes out for it. -/
def line (m : EchoFilter) (text : Text) : EchoFilter × Text :=
  let line := dropReturn text
  if m.continues && ['>', ' '].isPrefixOf line then
    let command := m.command ++ line.drop 2
    ({ m with command, numbered := opensNumberedLines command }, [])
  else if isEchoLine line then
    let command := line.drop 2
    ({ m with blankLines := 0, afterEcho := true, command, numbered := opensNumberedLines command }, [])
  else if m.numbered && isNumberedLine line then
    ({ m with afterEcho := false, continuable := true }, [])
  else
    let m := { m with afterEcho := false, continuable := false, numbered := false }
    if trim line = [] then ({ m with blankLines := m.blankLines + 1 }, [])
    else if isReturnCodeLine line ∧ line = m.lastLine ∧ m.blankLines = 0 then (m, [])
    else
      ({ m with blankLines := 0, lastLine := line },
        List.replicate m.blankLines '\n' ++ text ++ ['\n'])

/-- The loop of `push`, a character at a time: one is added to `m_partial`, or ends the line. -/
def readChar (m : EchoFilter) (c : Char) : EchoFilter × Text :=
  if c ≠ '\n' then ({ m with partialLine := m.partialLine ++ [c] }, [])
  else if m.passing then
    ({ m with lastLine := dropReturn (m.lastLine ++ m.partialLine), passing := false, partialLine := [] },
      m.partialLine ++ ['\n'])
  else
    let r := m.line m.partialLine
    ({ r.1 with partialLine := [] }, r.2)

def read (m : EchoFilter) (text : Text) : EchoFilter × Text := Transducer.run readChar m text

/-- The end of `push`: the start of a line that cannot be echo goes out now. -/
def early (m : EchoFilter) : EchoFilter × Text :=
  if m.partialLine ≠ [] ∧ (m.passing ∨ ¬ m.mayBeEcho m.partialLine) then
    if m.passing then
      ({ m with lastLine := m.lastLine ++ m.partialLine, partialLine := [] }, m.partialLine)
    else
      ({ m with blankLines := 0, afterEcho := false, numbered := false, passing := true,
                lastLine := m.partialLine, partialLine := [] },
        List.replicate m.blankLines '\n' ++ m.partialLine)
  else (m, [])

def push (m : EchoFilter) (text : Text) : EchoFilter × Text :=
  let r := m.read text
  ((early r.1).1, r.2 ++ (early r.1).2)

/-- The end of the output: what is held is either echo or goes out. -/
def finish (m : EchoFilter) : EchoFilter × Text :=
  let r :=
    if m.passing then (m, m.partialLine)
    else if m.partialLine ≠ [] ∧ ¬ isEchoLine m.partialLine ∧ m.partialLine ≠ ['.'] then
      let r := m.line m.partialLine
      (r.1, if r.2.getLast? = some '\n' then r.2.dropLast else r.2)
    else (m, [])
  ({ r.1 with partialLine := [], passing := false, blankLines := 0, afterEcho := false,
              numbered := false, lastLine := [] }, r.2)

/-- What is shown of an output that comes in chunks. -/
def shown (chunks : List Text) : Text :=
  let r := Transducer.run push {} chunks
  r.2 ++ (finish r.1).2

/-! ## The kinds of lines -/

inductive Kind where
  | continuation | echo | numbered | blank | returnCode | other
deriving DecidableEq

def kind (line : Text) : Kind :=
  if ['>', ' '].isPrefixOf line then .continuation
  else if isEchoLine line then .echo
  else if isNumberedLine line then .numbered
  else if line.all isSpace then .blank
  else if isReturnCodeLine line then .returnCode
  else .other

theorem trim_eq_nil_iff (text : Text) : trim text = [] ↔ text.all isSpace = true := by
  rw [trim, List.reverse_eq_nil_iff, List.dropWhile_eq_nil_iff, List.all_eq_true]
  constructor
  · intro h c hc
    by_contra hspace
    rw [← List.takeWhile_append_dropWhile (p := isSpace) (l := text)] at hc
    rcases List.mem_append.mp hc with hc | hc
    · exact hspace (List.mem_takeWhile_imp hc)
    · exact hspace (h c (List.mem_reverse.mpr hc))
  · intro h c hc
    exact h c ((List.dropWhile_sublist isSpace).subset (List.mem_reverse.mp hc))

theorem starts_with {a b : Char} {line : Text} (h : [a, b].isPrefixOf line = true) :
    ∃ rest, line = a :: b :: rest := by
  obtain ⟨rest, rfl⟩ := List.isPrefixOf_iff_prefix.mp h
  exact ⟨rest, rfl⟩

theorem digits_has_dot {text : Text} (h : digits false text = true) : '.' ∈ text := by
  induction text with
  | nil => cases h
  | cons c rest ih =>
    simp only [digits] at h
    split at h
    · simp_all
    · exact List.mem_cons_of_mem _ (ih (Bool.and_eq_true_iff.mp h).2)

theorem isNumberedLine_has_dot {line : Text} (h : isNumberedLine line = true) : '.' ∈ line := by
  induction line with
  | nil => cases h
  | cons c rest ih =>
    simp only [isNumberedLine, numberedUpTo] at h
    split at h
    · exact List.mem_cons_of_mem _ (ih h)
    · exact List.mem_cons_of_mem _ (digits_has_dot (Bool.and_eq_true_iff.mp h).2)

theorem isNumberedLine_not_blank {line : Text} (h : isNumberedLine line = true) :
    line.all isSpace = false := by
  rw [List.all_eq_false]
  exact ⟨'.', isNumberedLine_has_dot h, by decide⟩

theorem isReturnCodeLine_starts {line : Text} (h : isReturnCodeLine line = true) :
    ∃ d rest, line = 'r' :: '(' :: d :: rest := by
  unfold isReturnCodeLine at h
  split at h
  · exact ⟨_, _, rfl⟩
  · cases h

theorem kind_returnCode {line : Text} (h : isReturnCodeLine line = true) :
    kind line = .returnCode := by
  have hcode := h
  obtain ⟨d, rest, rfl⟩ := isReturnCodeLine_starts h
  simp [kind, isEchoLine, isNumberedLine, numberedUpTo, isSpace, isDigit, hcode]

/-- What goes out, and the filter after it, where a line is shown. -/
def shows (m : EchoFilter) (text : Text) : EchoFilter × Text :=
  ({ m with afterEcho := false, continuable := false, numbered := false, blankLines := 0,
            lastLine := dropReturn text },
    List.replicate m.blankLines '\n' ++ text ++ ['\n'])

/-- The filter after a line of the command echoed before. -/
def joins (m : EchoFilter) (more : Text) : EchoFilter :=
  { m with command := m.command ++ more, numbered := opensNumberedLines (m.command ++ more) }

def echoes (m : EchoFilter) (command : Text) : EchoFilter :=
  { m with blankLines := 0, afterEcho := true, command, numbered := opensNumberedLines command }

def goesOn (m : EchoFilter) : EchoFilter := { m with afterEcho := false, continuable := true }

/-- The filter after a line that ends an echo. -/
def ends (m : EchoFilter) (blankLines : Nat) : EchoFilter :=
  { m with afterEcho := false, continuable := false, numbered := false, blankLines }

/-- A line is dropped for its kind, where the filter expects one of the kind. -/
def lineAs (m : EchoFilter) (text : Text) : Kind → EchoFilter × Text
  | .continuation =>
    if m.continues = true then (m.joins ((dropReturn text).drop 2), []) else m.shows text
  | .echo => (m.echoes ((dropReturn text).drop 2), [])
  | .numbered => if m.numbered = true then (m.goesOn, []) else m.shows text
  | .blank => (m.ends (m.blankLines + 1), [])
  | .returnCode =>
    if dropReturn text = m.lastLine ∧ m.blankLines = 0 then (m.ends m.blankLines, []) else m.shows text
  | .other => m.shows text

theorem line_eq (m : EchoFilter) (text : Text) :
    m.line text = m.lineAs text (kind (dropReturn text)) := by
  unfold line
  generalize hline : dropReturn text = line
  by_cases hcont : ['>', ' '].isPrefixOf line = true
  · -- no line of another kind starts so
    obtain ⟨rest, rfl⟩ := starts_with hcont
    have htrim : trim ('>' :: ' ' :: rest) ≠ [] := by
      rw [Ne, trim_eq_nil_iff]
      simp [isSpace]
    have hkind : kind ('>' :: ' ' :: rest) = .continuation := if_pos hcont
    simp [hkind, isEchoLine, isNumberedLine, numberedUpTo, isSpace, isDigit, isReturnCodeLine, htrim,
      lineAs, shows, joins, hline]
  · by_cases hecho : isEchoLine line = true
    · simp [kind, hcont, hecho, lineAs, echoes, hline]
    · by_cases hnumbered : isNumberedLine line = true
      · have hcode : isReturnCodeLine line = false := by
          refine Bool.eq_false_iff.mpr fun h => ?_
          have hkind := kind_returnCode h
          simp [kind, hcont, hecho, hnumbered] at hkind
        have htrim : trim line ≠ [] := by
          rw [Ne, trim_eq_nil_iff, isNumberedLine_not_blank hnumbered]
          decide
        simp [kind, hcont, hecho, hnumbered, hcode, htrim, lineAs, shows, goesOn, hline]
      · by_cases hblank : line.all isSpace = true
        · simp [kind, hcont, hecho, hnumbered, hblank, (trim_eq_nil_iff line).mpr hblank, lineAs, ends]
        · have htrim : trim line ≠ [] := fun h => hblank ((trim_eq_nil_iff line).mp h)
          by_cases hcode : isReturnCodeLine line = true
          · simp [kind, hcont, hecho, hnumbered, hblank, hcode, htrim, lineAs, ends, shows, hline]
          · simp [kind, hcont, hecho, hnumbered, hblank, hcode, htrim, lineAs, shows, hline]

/-! ## The start of a line -/

theorem dropReturn_cases (text : Text) :
    dropReturn text = text ∨ text = dropReturn text ++ ['\r'] := by
  unfold dropReturn
  split
  · rename_i h
    exact .inr (List.dropLast_append_getLast? '\r' h).symm
  · exact .inl rfl

theorem dropReturn_initial (text : Text) : dropReturn text <+: text := by
  rcases dropReturn_cases text with h | h
  · exact ⟨[], by rw [List.append_nil, h]⟩
  · exact ⟨['\r'], h.symm⟩

theorem dropReturn_return (line : Text) : dropReturn (line ++ ['\r']) = line := by
  simp [dropReturn]

theorem afterDot_start {a b : Text} (h : afterDot (a ++ b) = true) : afterDot a = true := by
  cases a with
  | nil => rfl
  | cons c a => simp_all [afterDot]

theorem digits_start {a b : Text} (h : digits true (a ++ b) = true) : digits true a = true := by
  induction a with
  | nil => rfl
  | cons c a ih =>
    simp only [List.cons_append, digits] at h ⊢
    split at h
    · rename_i hc
      rw [if_pos hc]
      exact afterDot_start h
    · rename_i hc
      rw [if_neg hc]
      rw [Bool.and_eq_true] at h ⊢
      exact ⟨h.1, ih h.2⟩

theorem mayBeNumbered_start {a b : Text} (h : mayBeNumbered (a ++ b) = true) :
    mayBeNumbered a = true := by
  induction a with
  | nil => rfl
  | cons c a ih =>
    simp only [mayBeNumbered, List.cons_append, numberedUpTo] at h ⊢
    split at h
    · rename_i hc
      rw [if_pos hc]
      exact ih h
    · rename_i hc
      rw [if_neg hc]
      rw [Bool.and_eq_true] at h ⊢
      exact ⟨h.1, digits_start h.2⟩

theorem digits_cut {text : Text} (h : digits false text = true) : digits true text = true := by
  induction text with
  | nil => cases h
  | cons c rest ih =>
    simp only [digits] at h ⊢
    split at h
    · rename_i hc
      rw [if_pos hc]
      exact h
    · rename_i hc
      rw [if_neg hc]
      rw [Bool.and_eq_true] at h ⊢
      exact ⟨h.1, ih h.2⟩

theorem mayBeNumbered_of_isNumberedLine {line : Text} (h : isNumberedLine line = true) :
    mayBeNumbered line = true := by
  induction line with
  | nil => cases h
  | cons c rest ih =>
    simp only [isNumberedLine, mayBeNumbered, numberedUpTo] at h ih ⊢
    split at h
    · rename_i hc
      rw [if_pos hc]
      exact ih h
    · rename_i hc
      rw [if_neg hc]
      rw [Bool.and_eq_true] at h ⊢
      exact ⟨h.1, digits_cut h.2⟩

theorem mayBeNumbered_blank {text : Text} (h : text.all isSpace = true) :
    mayBeNumbered text = true := by
  induction text with
  | nil => rfl
  | cons c rest ih =>
    rw [List.all_cons, Bool.and_eq_true] at h
    exact (if_pos h.1).trans (ih h.2)

variable {m : EchoFilter}

theorem mayBeEcho_numbered (hm : m.numbered = true) {start : Text} (h : mayBeNumbered start = true) :
    m.mayBeEcho start = true := by
  cases start with
  | nil => rfl
  | cons c rest => simp [mayBeEcho, hm, h]

theorem mayBeEcho_start {a b : Text} (h : m.mayBeEcho (a ++ b) = true) : m.mayBeEcho a = true := by
  cases a with
  | nil => rfl
  | cons c a =>
    have hnumbered : mayBeNumbered (c :: (a ++ b)) = true → mayBeNumbered (c :: a) = true :=
      mayBeNumbered_start (a := c :: a)
    have hprompt : (a ++ b = [] ∨ (a ++ b).head? = some ' ') → a = [] ∨ a.head? = some ' ' := by
      cases a <;> simp
    simp only [List.cons_append, mayBeEcho, decide_eq_true_eq] at h ⊢
    rcases h with ⟨hc, h⟩ | ⟨hm, hc, h⟩ | ⟨hm, h⟩ | h
    · exact .inl ⟨hc, hprompt h⟩
    · exact .inr (.inl ⟨hm, hc, hprompt h⟩)
    · exact .inr (.inr (.inl ⟨hm, hnumbered h⟩))
    · exact .inr (.inr (.inr h))

/-- Space may be the start of a numbered line, and of no other echo. -/
theorem mayBeEcho_blank {start : Text} (hne : start ≠ []) (h : start.all isSpace = true) :
    m.mayBeEcho start = m.numbered := by
  cases start with
  | nil => exact absurd rfl hne
  | cons c rest =>
    have hc : isSpace c = true := (Bool.and_eq_true_iff.mp h).1
    have hdot : c ≠ '.' := by
      rintro rfl
      exact absurd hc (by decide)
    have hmore : c ≠ '>' := by
      rintro rfl
      exact absurd hc (by decide)
    have hr : c ≠ 'r' := by
      rintro rfl
      exact absurd hc (by decide)
    simp [mayBeEcho, hdot, hmore, hr, mayBeNumbered_blank h]

theorem afterDot_return (text : Text) : afterDot (text ++ ['\r']) = false := by
  cases text with
  | nil => rfl
  | cons c rest => simp [afterDot, isPlain]

theorem digits_return {text : Text} (h : digits false text = true) :
    digits true (text ++ ['\r']) = false := by
  induction text with
  | nil => cases h
  | cons c rest ih =>
    simp only [List.cons_append, digits] at h ⊢
    split at h
    · rename_i hc
      rw [if_pos hc]
      exact afterDot_return rest
    · rename_i hc
      rw [if_neg hc, ih (Bool.and_eq_true_iff.mp h).2, Bool.and_false]

/-- A `.` of the expression is no line terminator: with its `\r`, a numbered line is none. -/
theorem mayBeNumbered_return {line : Text} (h : isNumberedLine line = true) :
    mayBeNumbered (line ++ ['\r']) = false := by
  induction line with
  | nil => cases h
  | cons c rest ih =>
    simp only [isNumberedLine, mayBeNumbered, List.cons_append, numberedUpTo] at h ih ⊢
    split at h
    · rename_i hc
      rw [if_pos hc]
      exact ih h
    · rename_i hc
      rw [if_neg hc, digits_return (Bool.and_eq_true_iff.mp h).2, Bool.and_false]

theorem isNumberedLine_starts {line : Text} (h : isNumberedLine line = true) :
    ∃ c rest, line = c :: rest ∧ c ≠ '.' ∧ c ≠ '>' ∧ c ≠ 'r' := by
  cases line with
  | nil => cases h
  | cons c rest =>
    refine ⟨c, rest, rfl, ?_, ?_, ?_⟩
    all_goals
      rintro rfl
      simp [isNumberedLine, numberedUpTo, isSpace, isDigit] at h

/-! ## Where the end of a chunk is wrong -/

/-- The current line, where its end is still to come. -/
def whole (m : EchoFilter) (rest : Text) : Text := m.partialLine ++ rest.takeWhile (· ≠ '\n')

/-- What was read ends inside a line that goes on in `rest`, and the line is blank and no block is
echoed, or only its newline is missing after the `\r` of a prompt or of a block's line. -/
def Torn (m : EchoFilter) (rest : Text) : Prop :=
  m.partialLine ≠ [] ∧ '\n' ∈ rest ∧
    (((m.whole rest).all isSpace = true ∧ m.numbered = false) ∨
      (rest.head? = some '\n' ∧ m.partialLine.getLast? = some '\r' ∧
        (dropReturn m.partialLine = ['.'] ∨
          (m.numbered = true ∧ isNumberedLine (dropReturn m.partialLine) = true))))

instance (m : EchoFilter) (rest : Text) : Decidable (m.Torn rest) :=
  inferInstanceAs (Decidable (_ ∧ _ ∧ _))

theorem line_blank {text : Text} (h : text.all isSpace = true) : (m.line text).2 = [] := by
  have hall : (dropReturn text).all isSpace = true := by
    rw [List.all_eq_true] at h ⊢
    exact fun c hc => h c ((dropReturn_initial text).subset hc)
  have hcont : ['>', ' '].isPrefixOf (dropReturn text) = false := by
    refine Bool.eq_false_iff.mpr fun hcont => ?_
    obtain ⟨rest, hrest⟩ := starts_with hcont
    rw [hrest] at hall
    cases hall
  have hecho : isEchoLine (dropReturn text) = false := by
    cases hline : dropReturn text with
    | nil => rfl
    | cons c rest =>
      rw [hline, List.all_cons, Bool.and_eq_true] at hall
      have hdot : c ≠ '.' := by
        rintro rfl
        exact absurd hall.1 (by decide)
      simp [isEchoLine, hdot, hdot.symm]
  have hnumbered : isNumberedLine (dropReturn text) = false := by
    refine Bool.eq_false_iff.mpr fun hnumbered => ?_
    rw [isNumberedLine_not_blank hnumbered] at hall
    cases hall
  rw [line_eq]
  simp [kind, hcont, hecho, hnumbered, hall, lineAs]

theorem blank_of_dropReturn {text : Text} (h : (dropReturn text).all isSpace = true) :
    text.all isSpace = true := by
  rcases dropReturn_cases text with heq | heq
  · rwa [heq] at h
  · rw [heq, List.all_append, h]
    rfl

theorem dropped_of_torn {rest : Text} (h : m.Torn rest) :
    m.mayBeEcho m.partialLine = false ∧ (m.line (m.whole rest)).2 = [] := by
  obtain ⟨hne, -, ⟨hblank, hnum⟩ | ⟨hhead, hlast, hline⟩⟩ := h
  · refine ⟨?_, line_blank hblank⟩
    rw [mayBeEcho_blank hne, hnum]
    rw [whole, List.all_append, Bool.and_eq_true] at hblank
    exact hblank.1
  · have hwhole : m.whole rest = m.partialLine := by
      cases rest with
      | nil => cases hhead
      | cons c rest =>
        obtain rfl := Option.some.inj hhead
        simp [whole]
    have hreturn : m.partialLine = dropReturn m.partialLine ++ ['\r'] := by
      rw [dropReturn, if_pos hlast, List.dropLast_append_getLast? '\r' hlast]
    rw [hwhole]
    rcases hline with hdot | ⟨hnum, hline⟩
    · rw [line_eq, hdot]
      rw [hdot] at hreturn
      refine ⟨?_, rfl⟩
      rw [hreturn]
      simp [mayBeEcho, mayBeNumbered, numberedUpTo, isSpace, isDigit]
    · obtain ⟨c, line, hstarts, hdot, hmore, hr⟩ := isNumberedLine_starts hline
      have hmay := mayBeNumbered_return hline
      rw [line_eq]
      rw [hreturn]
      rw [dropReturn_return]
      rw [hstarts] at hline hmay ⊢
      constructor
      · rw [List.cons_append] at hmay ⊢
        simp [mayBeEcho, hdot, hmore, hr, hmay]
      · have hecho : isEchoLine (c :: line) = false := by simp [isEchoLine, hdot, hdot.symm]
        simp [kind, hline, hecho, hmore.symm, hnum, lineAs]

theorem kind_spec (line : Text) : match kind line with
    | .continuation => ∃ rest, line = '>' :: ' ' :: rest
    | .echo => line = ['.'] ∨ ∃ rest, line = '.' :: ' ' :: rest
    | .numbered => isNumberedLine line = true
    | .blank => line.all isSpace = true
    | .returnCode => isReturnCodeLine line = true
    | .other => True := by
  unfold kind
  split_ifs with h₁ h₂ h₃ h₄ h₅
  · exact starts_with h₁
  · simp only [isEchoLine, decide_eq_true_eq] at h₂
    exact h₂.imp_right starts_with
  · exact h₃
  · exact h₄
  · exact h₅
  · trivial

/-- The start of a line an echo's line begins with may be echo. -/
theorem mayBeEcho_of_starts {a : Char} {start more line : Text} (hne : start ≠ [])
    (h : a :: ' ' :: line <+: start ++ more) (ha : a = '.' ∨ (a = '>' ∧ m.continues = true)) :
    m.mayBeEcho start = true := by
  cases start with
  | nil => exact absurd rfl hne
  | cons c start =>
    obtain ⟨rfl, hrest⟩ := List.cons_prefix_cons.mp h
    have hprompt : start = [] ∨ start.head? = some ' ' := by
      cases start with
      | nil => exact .inl rfl
      | cons d start => exact .inr (congrArg some (List.cons_prefix_cons.mp hrest).1.symm)
    rcases ha with rfl | ⟨rfl, hm⟩
    · simp [mayBeEcho, hprompt]
    · simp [mayBeEcho, hprompt, hm]

/-- The start of a line that is not one of the line without its `\r`. -/
theorem cut_at_return {start more : Text} (h : ¬ start <+: dropReturn (start ++ more)) :
    more = [] ∧ start = dropReturn start ++ ['\r'] := by
  rcases dropReturn_cases (start ++ more) with heq | heq
  · exact absurd (heq.symm ▸ List.prefix_append _ _) h
  · rcases List.eq_nil_or_concat more with rfl | ⟨init, c, rfl⟩
    · rw [List.append_nil] at heq
      exact ⟨rfl, heq⟩
    · rw [List.concat_eq_append, ← List.append_assoc] at heq h
      obtain ⟨hinit, -⟩ := List.append_inj' heq rfl
      rw [← hinit] at h
      exact absurd (List.prefix_append _ _) h

theorem takeWhile_newline {rest : Text} (hend : '\n' ∈ rest)
    (h : rest.takeWhile (· ≠ '\n') = []) : rest.head? = some '\n' := by
  cases rest with
  | nil => cases hend
  | cons c rest =>
    by_contra hc
    have hc' : c ≠ '\n' := fun h => hc (congrArg some h)
    simp [hc'] at h

theorem torn_of_dropped {rest : Text} (hend : '\n' ∈ rest)
    (hmay : m.mayBeEcho m.partialLine = false) (hline : (m.line (m.whole rest)).2 = []) :
    m.Torn rest := by
  have hne : m.partialLine ≠ [] := by
    intro h
    rw [h] at hmay
    cases hmay
  -- the start is no start of the line without its `\r` only where the `\r` is its end
  have hcut : ¬ m.partialLine <+: dropReturn (m.whole rest) → rest.head? = some '\n' ∧
      m.whole rest = m.partialLine ∧ m.partialLine.getLast? = some '\r' := by
    intro h
    obtain ⟨hmore, hstart⟩ := cut_at_return h
    refine ⟨takeWhile_newline hend hmore, by rw [whole, hmore, List.append_nil], ?_⟩
    rw [hstart]
    simp
  have hlast : ∀ {line : Text}, dropReturn (m.whole rest) = line →
      ¬ m.partialLine <+: dropReturn (m.whole rest) →
      (line = ['.'] ∨ (m.numbered = true ∧ isNumberedLine line = true)) → m.Torn rest := by
    rintro _ rfl hnot hkind
    obtain ⟨hhead, hwhole, hreturn⟩ := hcut hnot
    rw [hwhole] at hkind
    exact ⟨hne, hend, .inr ⟨hhead, hreturn, hkind⟩⟩
  have hfalse : m.mayBeEcho m.partialLine ≠ true := by simp [hmay]
  have hinitial := dropReturn_initial (m.whole rest)
  have hspec := kind_spec (dropReturn (m.whole rest))
  rw [line_eq] at hline
  cases hkind : kind (dropReturn (m.whole rest)) with
  | continuation =>
    simp only [hkind, lineAs] at hline hspec
    obtain ⟨line, hspec⟩ := hspec
    rw [hspec] at hinitial
    split at hline
    · exact absurd (mayBeEcho_of_starts hne hinitial (.inr ⟨rfl, ‹_›⟩)) hfalse
    · simp [shows] at hline
  | echo =>
    simp only [hkind] at hspec
    rcases hspec with hdot | ⟨line, hspec⟩
    · refine hlast hdot (fun h => hfalse ?_) (.inl rfl)
      rw [hdot] at h
      rcases List.prefix_cons_iff.mp h with h | ⟨tail, htail, hnil⟩
      · exact absurd h hne
      · obtain rfl := List.prefix_nil.mp hnil
        simp [htail, mayBeEcho]
    · rw [hspec] at hinitial
      exact absurd (mayBeEcho_of_starts hne hinitial (.inl rfl)) hfalse
  | numbered =>
    simp only [hkind, lineAs] at hline hspec
    split at hline
    · rename_i hnum
      refine hlast rfl (fun ⟨tail, htail⟩ => hfalse ?_) (.inr ⟨hnum, hspec⟩)
      have hmayline := mayBeNumbered_of_isNumberedLine hspec
      rw [← htail] at hmayline
      exact mayBeEcho_numbered hnum (mayBeNumbered_start hmayline)
    · simp [shows] at hline
  | blank =>
    simp only [hkind] at hspec
    have hblank := blank_of_dropReturn hspec
    have hstart : m.partialLine.all isSpace = true := by
      rw [whole, List.all_append, Bool.and_eq_true] at hblank
      exact hblank.1
    exact ⟨hne, hend, .inl ⟨hblank, (mayBeEcho_blank hne hstart).symm.trans hmay⟩⟩
  | returnCode =>
    simp only [hkind, lineAs] at hline hspec
    split at hline
    · rename_i hsame
      obtain ⟨d, line, hr⟩ := isReturnCodeLine_starts hspec
      rw [hsame.1] at hspec
      rw [hr] at hinitial
      cases hstart : m.partialLine with
      | nil => exact absurd hstart hne
      | cons c start =>
        rw [whole, hstart, List.cons_append] at hinitial
        obtain ⟨rfl, -⟩ := List.cons_prefix_cons.mp hinitial
        rw [hstart] at hfalse
        simp [mayBeEcho, hspec] at hfalse
    · simp [shows] at hline
  | other =>
    simp only [hkind, lineAs] at hline
    simp [shows] at hline

/-- **Where the end of a chunk is wrong**: what was read of a line goes out, and its whole is not
shown. -/
theorem torn_iff {rest : Text} (hend : '\n' ∈ rest) :
    m.Torn rest ↔ m.mayBeEcho m.partialLine = false ∧ (m.line (m.whole rest)).2 = [] :=
  ⟨dropped_of_torn, fun h => torn_of_dropped hend h.1 h.2⟩

end Jovian.EchoFilter
