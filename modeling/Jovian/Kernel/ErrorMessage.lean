import Jovian.Kernel.TailHold
import Jovian.Lib.Lines

/-!
# ErrorMessage — the error Stata printed last

The message of a failed command is read back from what Stata printed: the lines before the `r(<rc>);`
line that the output ends in.

* `Block` — the end of an output that is an error: its lines, the return code, and nothing after.
* **`errorMessage_block`** — where a message is found, the output ends in its block.
-/

namespace Jovian.StataText

open EchoFilter (Text isSpace trim isNumberedLine)
open TailHold (stripped LineStart)

/-! ## The message -/

/-- The lines of a stream; the last need not be ended. -/
def splitLines (text : Text) : List Text :=
  let lines := Lines.split text
  lines.1 ++ if lines.2 = [] then [] else [Lines.ended lines.2]

def marker (rc : Int) : Text := 'r' :: '(' :: ((toString rc).toList ++ [')', ';'])

def endOfDoFile : Text := "end of do-file".toList

/-- The first loop, down from `i`: the first return code of the run of them the output ends in. -/
def findMarker (lines : List Text) (rc : Int) (found : Option Nat) : Nat → Option Nat
  | 0 => found
  | i + 1 =>
    let line := trim (lines.getD i [])
    if line = marker rc then findMarker lines rc (some i) i
    else if line ≠ [] ∧ line ≠ endOfDoFile then found
    else findMarker lines rc found i

/-- A blank line, or an echoed command, is where the message starts. -/
def startsMessage (line : Text) : Bool :=
  trim line = [] ∨ ['.', ' '].isPrefixOf line ∨ ['>', ' '].isPrefixOf line ∨ isNumberedLine line

/-- The second loop, down from `first`. -/
def messageStart (lines : List Text) : Nat → Nat
  | 0 => 0
  | first + 1 => if startsMessage (lines.getD first []) then first + 1 else messageStart lines first

/-- The last loop. -/
def joined (lines : List Text) : Text :=
  lines.foldl (fun message line => (if message = [] then [] else message ++ ['\n']) ++ line) []

/-- The message printed before the final return code of a failed command's output, or nothing. -/
def errorMessage (output : Text) (rc : Int) : Text :=
  let lines := splitLines output
  match findMarker lines rc none lines.length with
  | none => []
  | some markerLine =>
    let first := messageStart lines markerLine
    trim (joined ((lines.take markerLine).drop first))

/-! ## What the error is in the output -/

/-- The text is the lines, each ended. -/
inductive Printed : List Text → Text → Prop
  | nil : Printed [] []
  | cons {line : Text} {lines : List Text} {text : Text} (cr : Text) : '\n' ∉ line →
    cr = [] ∨ cr = ['\r'] → Printed lines text →
    Printed (line :: lines) (line ++ cr ++ '\n' :: text)

/-- What may come after the return code. -/
def Trailing (rc : Int) (line : Text) : Prop :=
  trim line = [] ∨ trim line = marker rc ∨ trim line = endOfDoFile

/-- The text is the error: the lines of the message, the return code, and nothing after it but the
end of a do-file and the return code again. -/
structure Block (message : Text) (rc : Int) (text : Text) : Prop where
  parts : ∃ lines printed mark after, text = printed ++ (mark ++ after) ∧ Printed lines printed ∧
    (∀ line ∈ lines.head?, trim line ≠ []) ∧ trim (joined lines) = message ∧
    '\n' ∉ mark ∧ trim mark = marker rc ∧
    (after = [] ∨ after.head? = some '\n') ∧ ∀ line ∈ splitLines after, Trailing rc line

/-! ## The lines of a text -/

theorem splitLines_rest {line : Text} (h : '\n' ∉ line) :
    splitLines line = if line = [] then [] else [Lines.ended line] := by
  simp [splitLines, Lines.split, Lines.run_unended h]

theorem splitLines_line {line : Text} (h : '\n' ∉ line) (text : Text) :
    splitLines (line ++ '\n' :: text) = Lines.ended line :: splitLines text := by
  have hsplit : Lines.split (line ++ '\n' :: text) =
      (Lines.ended line :: (Lines.split text).1, (Lines.split text).2) := by
    rw [Lines.split, Transducer.run_append, Lines.run_unended h, Transducer.run_cons, Lines.feed,
      if_pos rfl]
    rfl
  simp only [splitLines, hsplit, List.cons_append]

/-- A text is a line that is not ended, or an ended one and the rest. -/
theorem lines_induction {P : Text → Prop} (rest : ∀ line, '\n' ∉ line → P line)
    (line : ∀ line text, '\n' ∉ line → P text → P (line ++ '\n' :: text)) (text : Text) : P text := by
  suffices h : ∀ start, '\n' ∉ start → P (start ++ text) from h [] List.not_mem_nil
  induction text with
  | nil =>
    intro start hstart
    rw [List.append_nil]
    exact rest start hstart
  | cons c text ih =>
    intro start hstart
    by_cases hc : c = '\n'
    · subst hc
      exact line start text hstart (ih [] List.not_mem_nil)
    · have hsnoc := ih (start ++ [c]) (by simp [hstart, Ne.symm hc])
      rwa [List.append_assoc] at hsnoc

theorem ended_append (line : Text) : ∃ cr : Text, (cr = [] ∨ cr = ['\r']) ∧
    line = Lines.ended line ++ cr := by
  rw [Lines.ended]
  split
  · next h => exact ⟨['\r'], .inr rfl, (List.dropLast_append_getLast? _ h).symm⟩
  · exact ⟨[], .inl rfl, (List.append_nil _).symm⟩

theorem mem_of_mem_ended {line : Text} {c : Char} (h : c ∈ Lines.ended line) : c ∈ line := by
  obtain ⟨cr, -, heq⟩ := ended_append line
  rw [heq]
  exact List.mem_append_left _ h

theorem mem_of_mem_splitLines {text line : Text} {c : Char} (hline : line ∈ splitLines text)
    (hc : c ∈ line) : c ∈ text := by
  induction text using lines_induction with
  | rest start h =>
    rw [splitLines_rest h] at hline
    split at hline
    · cases hline
    · rw [List.mem_singleton.mp hline] at hc
      exact mem_of_mem_ended hc
  | line start text h ih =>
    rw [splitLines_line h, List.mem_cons] at hline
    rcases hline with rfl | hline
    · exact List.mem_append_left _ (mem_of_mem_ended hc)
    · exact List.mem_append_right _ (List.mem_cons_of_mem _ (ih hline))

theorem Printed.lineStart {lines : List Text} {text : Text} (h : Printed lines text) :
    LineStart text := by
  induction h with
  | nil => exact .inl rfl
  | @cons line lines text cr hline hcr hprinted ih =>
    have hstart : LineStart (['\n'] ++ text) := by
      by_cases htext : text = []
      · subst htext
        exact .inr rfl
      · exact (TailHold.lineStart_append htext).mpr ih
    exact (TailHold.lineStart_append (by simp)).mpr hstart

/-- The lines of a text from one on are those of its end. -/
theorem splitLines_split {text : Text} {above below : List Text}
    (h : splitLines text = above ++ below) (hbelow : below ≠ []) :
    ∃ up rest, text = up ++ rest ∧ Printed above up ∧ splitLines rest = below := by
  induction above generalizing text with
  | nil => exact ⟨[], text, rfl, .nil, h⟩
  | cons first above ih =>
    induction text using lines_induction with
    | rest start hstart =>
      rw [splitLines_rest hstart] at h
      split at h
      · cases h
      · obtain ⟨-, hnil⟩ := List.cons.inj h
        exact absurd (List.append_eq_nil_iff.mp hnil.symm).2 hbelow
    | line start text hstart _ =>
      rw [splitLines_line hstart, List.cons_append, List.cons.injEq] at h
      obtain ⟨rfl, hrest⟩ := h
      obtain ⟨up, rest, rfl, hprinted, hlines⟩ := ih hrest
      obtain ⟨cr, hcr, heq⟩ := ended_append start
      refine ⟨start ++ '\n' :: up, rest, by simp, ?_, hlines⟩
      have hcons := Printed.cons cr (fun hmem => hstart (mem_of_mem_ended hmem)) hcr hprinted
      rwa [← heq] at hcons

theorem splitLines_cons {text first : Text} {below : List Text} (h : splitLines text = first :: below) :
    ∃ line after, text = line ++ after ∧ '\n' ∉ line ∧ first = Lines.ended line ∧
      (after = [] ∨ after.head? = some '\n') ∧ ∀ l ∈ splitLines after, l = [] ∨ l ∈ below := by
  induction text using lines_induction with
  | rest start hstart =>
    rw [splitLines_rest hstart] at h
    split at h
    · cases h
    · obtain ⟨rfl, -⟩ := List.cons.inj h
      exact ⟨start, [], (List.append_nil _).symm, hstart, rfl, .inl rfl, fun l hl => nomatch hl⟩
  | line start text hstart _ =>
    rw [splitLines_line hstart, List.cons.injEq] at h
    obtain ⟨rfl, rfl⟩ := h
    refine ⟨start, '\n' :: text, rfl, hstart, rfl, .inr rfl, fun l hl => ?_⟩
    have hempty : splitLines ('\n' :: text) = [] :: splitLines text :=
      splitLines_line List.not_mem_nil text
    rw [hempty, List.mem_cons] at hl
    exact hl

/-! ## Trimmed texts -/

theorem trim_append_blanks {blanks : Text} (h : ∀ c ∈ blanks, isSpace c) (text : Text) :
    trim (text ++ blanks) = trim text := by
  have hblank : blanks.dropWhile isSpace = [] := List.dropWhile_eq_nil_iff.mpr h
  show stripped ((text ++ blanks).dropWhile isSpace) = stripped (text.dropWhile isSpace)
  rw [List.dropWhile_append]
  split
  · next hnil => rw [hblank, List.isEmpty_iff.mp hnil]
  · exact TailHold.stripped_append h _

theorem trim_ended (line : Text) : trim (Lines.ended line) = trim line := by
  obtain ⟨cr, hcr, heq⟩ := ended_append line
  have hblank : ∀ c ∈ cr, isSpace c = true := by
    rcases hcr with rfl | rfl
    · exact fun c hc => nomatch hc
    · exact fun c hc => by rw [List.mem_singleton.mp hc]; rfl
  conv_rhs => rw [heq, trim_append_blanks hblank]

theorem trim_of_blank {text : Text} (h : ∀ c ∈ text, isSpace c) : trim text = [] :=
  trim_append_blanks h []

theorem head_dropWhile {p : Char → Bool} {text : Text} {c : Char}
    (h : (text.dropWhile p).head? = some c) : p c = false := by
  have hnot := List.head?_dropWhile_not p text
  rwa [h] at hnot

theorem head_trim {text : Text} {c : Char} (h : (trim text).head? = some c) : isSpace c = false := by
  obtain ⟨blanks, hblanks⟩ : ∃ blanks, trim text ++ blanks = text.dropWhile isSpace :=
    List.rdropWhile_prefix isSpace (text.dropWhile isSpace)
  have hhead : (text.dropWhile isSpace).head? = some c := by
    rw [← hblanks, List.head?_append, Option.or_of_isSome (Option.isSome_of_eq_some h), h]
  exact head_dropWhile hhead

theorem trim_of_ends {text : Text} (hhead : ∀ c ∈ text.head?, isSpace c = false)
    (hlast : stripped text = text) : trim text = text := by
  have hdrop : text.dropWhile isSpace = text := by
    cases text with
    | nil => rfl
    | cons c text => rw [List.dropWhile_cons_of_neg (by simp [hhead c rfl])]
  show stripped (text.dropWhile isSpace) = text
  rw [hdrop, hlast]

theorem trim_trim (text : Text) : trim (trim text) = trim text :=
  trim_of_ends (fun _ hc => head_trim hc) (List.rdropWhile_idempotent ..)

/-! ## Where the message is -/

theorem findMarker_spec {lines : List Text} {rc : Int} {found : Option Nat} {i : Nat}
    (hfound : ∀ k ∈ found, trim (lines.getD k []) = marker rc ∧
      ∀ j, k < j → Trailing rc (lines.getD j []))
    (hrun : ∀ j, i ≤ j → Trailing rc (lines.getD j [])) :
    ∀ k ∈ findMarker lines rc found i, trim (lines.getD k []) = marker rc ∧
      ∀ j, k < j → Trailing rc (lines.getD j []) := by
  -- down the lines: all from `i` on may come after a return code
  induction i generalizing found with
  | zero => exact hfound
  | succ i ih =>
    have hfrom : Trailing rc (lines.getD i []) → ∀ j, i ≤ j → Trailing rc (lines.getD j []) :=
      fun hi j hij => (Nat.eq_or_lt_of_le hij).elim (fun heq => heq ▸ hi) (hrun j)
    rw [findMarker]
    split
    · next hmarker =>
      refine ih (fun k hk => ?_) (hfrom (.inr (.inl hmarker)))
      obtain rfl := Option.some.inj hk
      exact ⟨hmarker, hrun⟩
    · split
      · exact hfound
      · next hother =>
        refine ih hfound (hfrom ?_)
        by_cases hblank : trim (lines.getD i []) = []
        · exact .inl hblank
        · exact .inr (.inr (not_not.mp fun hend => hother ⟨hblank, hend⟩))

theorem messageStart_spec (lines : List Text) (markerLine : Nat) :
    messageStart lines markerLine ≤ markerLine ∧ (messageStart lines markerLine < markerLine →
      startsMessage (lines.getD (messageStart lines markerLine) []) = false) := by
  induction markerLine with
  | zero => exact ⟨Nat.le_refl _, fun h => absurd h (Nat.lt_irrefl _)⟩
  | succ first ih =>
    rw [messageStart]
    split
    · exact ⟨Nat.le_refl _, fun h => absurd h (Nat.lt_irrefl _)⟩
    · next hfirst =>
      refine ⟨Nat.le_succ_of_le ih.1, fun _ => ?_⟩
      rcases Nat.eq_or_lt_of_le ih.1 with heq | hlt
      · rw [heq]
        exact Bool.eq_false_iff.mpr hfirst
      · exact ih.2 hlt

theorem marker_ne_nil (rc : Int) : marker rc ≠ [] := List.cons_ne_nil _ _

theorem take_drop_parts {lines : List Text} {first last : Nat} (hle : first ≤ last)
    (hlast : last < lines.length) : lines = lines.take first ++
      ((lines.take last).drop first ++ lines.getD last [] :: lines.drop (last + 1)) := by
  have htake : lines.take first = (lines.take last).take first := by
    rw [List.take_take, Nat.min_eq_left hle]
  have hget : lines.getD last [] = lines[last] := by simp [hlast]
  rw [htake, hget, ← List.append_assoc, List.take_append_drop, ← List.drop_eq_getElem_cons hlast,
    List.take_append_drop]

theorem getD_ended (lines : List Text) {j : Nat} (h : lines.length ≤ j) : lines.getD j [] = [] := by
  simp [h]

theorem head_drop_take {lines : List Text} {first last : Nat} {line : Text}
    (h : ((lines.take last).drop first).head? = some line) :
    first < last ∧ lines.getD first [] = line := by
  rw [List.head?_drop, List.getElem?_take] at h
  split at h
  · next hlt => exact ⟨hlt, by rw [List.getD_eq_getElem?_getD, h, Option.getD_some]⟩
  · cases h

theorem not_blank_of_starts {line : Text} (h : startsMessage line = false) : trim line ≠ [] := by
  intro hblank
  simp [startsMessage, hblank] at h

/-- Where a message is found, the output ends in its block. -/
theorem errorMessage_block {output : Text} {rc : Int} (h : errorMessage output rc ≠ []) :
    ∃ up rest, output = up ++ rest ∧ LineStart up ∧ Block (errorMessage output rc) rc rest := by
  rw [errorMessage] at h ⊢
  generalize hsplit : splitLines output = lines at h ⊢
  cases hfind : findMarker lines rc none lines.length with
  | none => simp [hfind] at h
  | some markerLine =>
    have hnone : ∀ k ∈ (none : Option Nat), trim (lines.getD k []) = marker rc ∧
        ∀ j, k < j → Trailing rc (lines.getD j []) := fun k hk => by cases hk
    have hbeyond : ∀ j, lines.length ≤ j → Trailing rc (lines.getD j []) := fun j hj =>
      .inl (by rw [getD_ended _ hj]; rfl)
    obtain ⟨hmarker, hafter⟩ := findMarker_spec hnone hbeyond markerLine hfind
    have hlt : markerLine < lines.length := by
      by_contra hge
      rw [getD_ended _ (Nat.not_lt.mp hge)] at hmarker
      exact marker_ne_nil rc hmarker.symm
    obtain ⟨hle, hstarts⟩ := messageStart_spec lines markerLine
    -- the lines before the message, the message, and from the return code on
    obtain ⟨up, rest, rfl, hup, hrest⟩ := splitLines_split (hsplit.trans (take_drop_parts hle hlt))
      (List.append_ne_nil_of_right_ne_nil _ (List.cons_ne_nil _ _))
    obtain ⟨printed, marked, rfl, hprinted, hmarked⟩ :=
      splitLines_split hrest (List.cons_ne_nil _ _)
    obtain ⟨mark, after, rfl, hmark, hended, hline, hlines⟩ := splitLines_cons hmarked
    refine ⟨up, _, rfl, hup.lineStart, _, printed, mark, after, rfl, hprinted, ?_, rfl, hmark, ?_,
      hline, ?_⟩
    · intro line hhead
      obtain ⟨hfirst, hget⟩ := head_drop_take hhead
      exact hget ▸ not_blank_of_starts (hstarts hfirst)
    · rw [← trim_ended, ← hended, hmarker]
    · intro line hmem
      rcases hlines line hmem with rfl | hbelow
      · exact .inl rfl
      · obtain ⟨i, hi, heq⟩ := List.getElem_of_mem hbelow
        rw [List.getElem_drop] at heq
        have hline := hafter (markerLine + 1 + i) (by omega)
        rw [List.length_drop] at hi
        rwa [List.getD_eq_getElem?_getD, List.getElem?_eq_getElem (by omega), Option.getD_some,
          heq] at hline

/-! ## An error as it is published -/

theorem newline_notMem_marker (rc : Int) : '\n' ∉ marker rc := by
  have hdigits : ∀ n : Nat, '\n' ∉ Nat.toDigits 10 n := fun n hmem =>
    absurd (Nat.isDigit_of_mem_toDigits (by decide) (by decide) hmem) (by decide)
  have hrc : '\n' ∉ rc.repr.toList := by
    rw [Int.repr_eq_if]
    split <;> simp [hdigits]
  simp [marker, hrc]

theorem stripped_marked (text : Text) (rc : Int) : stripped (text ++ marker rc) = text ++ marker rc := by
  have hsplit : text ++ marker rc = (text ++ 'r' :: '(' :: ((toString rc).toList ++ [')'])) ++ [';'] := by
    simp [marker]
  rw [hsplit]
  exact List.rdropWhile_concat_neg _ _ _ (by decide)

theorem trim_marker (rc : Int) : trim (marker rc) = marker rc :=
  trim_of_ends (fun c hc => by rw [← Option.some.inj hc]; rfl) (stripped_marked [] rc)

theorem printed_lines (text : Text) : ∃ first lines, Printed (first :: lines) (text ++ ['\n']) ∧
    text = first ++ lines.flatMap ('\n' :: ·) := by
  induction text using lines_induction with
  | rest line h =>
    have hprinted := Printed.cons [] h (.inl rfl) .nil
    rw [List.append_nil] at hprinted
    exact ⟨line, [], hprinted, (List.append_nil _).symm⟩
  | line line text h ih =>
    obtain ⟨first, lines, hprinted, htext⟩ := ih
    have hcons := Printed.cons [] h (.inl rfl) hprinted
    rw [List.append_nil] at hcons
    refine ⟨line, first :: lines, ?_, ?_⟩
    · rwa [List.append_assoc]
    · rw [List.flatMap_cons, List.cons_append, ← htext]

theorem joined_cons {first : Text} (hfirst : first ≠ []) (lines : List Text) :
    joined (first :: lines) = first ++ lines.flatMap ('\n' :: ·) := by
  rw [joined, List.foldl_cons, if_pos rfl, List.nil_append]
  induction lines generalizing first with
  | nil => simp
  | cons line lines ih =>
    rw [List.foldl_cons, if_neg hfirst, ih (by simp [hfirst]), List.flatMap_cons]
    simp

/-- A message that begins with no blank begins with its first line. -/
theorem first_line_head {first : Text} {lines : List Text} {c : Char}
    (h : (first ++ lines.flatMap ('\n' :: ·)).head? = some c) (hspace : isSpace c = false) :
    first.head? = some c := by
  cases first with
  | cons d first => exact h
  | nil =>
    cases lines with
    | nil => exact h
    | cons line lines =>
      obtain rfl : '\n' = c := Option.some.inj h
      cases hspace

/-- At the first newline of the blanks after a return code, nothing but blank lines is left. -/
theorem blanks_split {blanks : Text} (h : ∀ c ∈ blanks, isSpace c) : ∃ more after : Text,
    blanks = more ++ after ∧ '\n' ∉ more ∧ (∀ c ∈ more, isSpace c) ∧
      (after = [] ∨ after.head? = some '\n') ∧ ∀ line ∈ splitLines after, trim line = [] := by
  refine ⟨blanks.takeWhile (· ≠ '\n'), blanks.dropWhile (· ≠ '\n'),
    List.takeWhile_append_dropWhile.symm, fun hmem => ?_, fun c hc => ?_, ?_, fun line hline => ?_⟩
  · simpa using List.mem_takeWhile_imp hmem
  · exact h c ((List.takeWhile_sublist _).subset hc)
  · cases hdrop : blanks.dropWhile (· ≠ '\n') with
    | nil => exact .inl rfl
    | cons d rest =>
      have hd := head_dropWhile (c := d) (by rw [hdrop]; rfl)
      exact .inr (congrArg some (by simpa using hd))
  · refine trim_of_blank fun c hc => h c ?_
    exact (List.dropWhile_sublist _).subset (mem_of_mem_splitLines hline hc)

/-- The message, the return code and blanks are an error. -/
theorem block_of_message {message blanks : Text} {rc : Int} (htrim : trim message = message)
    (hne : message ≠ []) (hblanks : ∀ c ∈ blanks, isSpace c) :
    Block message rc (message ++ '\n' :: marker rc ++ blanks) := by
  obtain ⟨first, lines, hprinted, htext⟩ := printed_lines message
  obtain ⟨more, after, rfl, hmore, hspaces, hafter, hlines⟩ := blanks_split hblanks
  obtain ⟨c, hc⟩ := Option.ne_none_iff_exists'.mp (mt List.head?_eq_none_iff.mp hne)
  have hspace : isSpace c = false := by
    rw [← htrim] at hc
    exact head_trim hc
  have hfirst : first.head? = some c := first_line_head (htext ▸ hc) hspace
  refine ⟨first :: lines, message ++ ['\n'], marker rc ++ more, after, ?_, hprinted, ?_, ?_, ?_, ?_,
    hafter, fun line hline => .inl (hlines line hline)⟩
  · simp
  · rintro line ⟨⟩ hblank
    rw [EchoFilter.trim_eq_nil_iff, List.all_eq_true] at hblank
    rw [hblank c (List.mem_of_head? hfirst)] at hspace
    cases hspace
  · rw [joined_cons (fun hnil => by simp [hnil] at hfirst), ← htext, htrim]
  · intro hmem
    rcases List.mem_append.mp hmem with hmem | hmem
    · exact newline_notMem_marker rc hmem
    · exact hmore hmem
  · rw [trim_append_blanks hspaces, trim_marker]

end Jovian.StataText
