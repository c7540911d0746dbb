import Jovian.Session.RStatic
import Mathlib.Data.List.Find

/-!
# RReading — what R reads, and what `analyzeR` takes for a name

R's own lexer is given as what it may read (`Reads`): a text, cut up in pieces, with what each piece
is and how far it goes. It reads a number with what follows it directly as one, and an operator that
is none of the table as those it consists of; no name or string hangs on that.

* **`reads_only_names`** — in a text whose pieces are plain, each operator is the longest one and each
  name is read off a name or a string of the text that is no member, unless there is a `:::`.
-/

namespace Jovian.RStatic

open RunEnsure (isSpace)

/-! ## R's pieces -/

/-- The letters beyond ASCII that R takes in names, which its locale says. -/
structure Locale where
  letter : Char → Bool
  letter_ge : ∀ c, letter c = true → 0x80 ≤ c.toNat
  not_space : ∀ c, letter c = true → isSpace c = false

namespace Locale

variable (l : Locale)

def nameStart (c : Char) : Bool := isLetter c ∨ l.letter c ∨ c = '.' ∨ c = '_'

def nameChar (c : Char) : Bool := l.nameStart c ∨ isDigit c

end Locale

inductive Piece where
  | space (c : Char)
  | comment (body : Text)
  | string (q : Char) (body : Text)
  /-- `r"---(body)---"` -/
  | raw (r q : Char) (dashes : Nat) (o close : Char) (body : Text)
  | quotedName (body : Text)
  | name (text : Text)
  | number (text : Text)
  /-- `%body%` -/
  | special (body : Text)
  | op (text : Text)
  | bracket (c : Char)
  /-- `\` for `function` -/
  | lambda
deriving DecidableEq

namespace Piece

/-- What ends a raw string. -/
def rawEnd (q : Char) (dashes : Nat) (close : Char) : Text := close :: List.replicate dashes '-' ++ [q]

def text : Piece → Text
  | space c => [c]
  | comment body => '#' :: body
  | string q body => q :: body ++ [q]
  | raw r q dashes o close body =>
    r :: q :: List.replicate dashes '-' ++ o :: body ++ rawEnd q dashes close
  | quotedName body => backtick :: body ++ [backtick]
  | name text => text
  | number text => text
  | special body => '%' :: body ++ ['%']
  | op text => text
  | bracket c => [c]
  | lambda => ['\\']

end Piece

/-- A string's text between its quotes: a quote in it stands behind a backslash. -/
inductive Escaped (q : Char) : Text → Prop where
  | nil : Escaped q []
  | plain {c : Char} {cs : Text} (hq : c ≠ q) (hb : c ≠ '\\') (h : Escaped q cs) : Escaped q (c :: cs)
  | escape (c : Char) {cs : Text} (h : Escaped q cs) : Escaped q ('\\' :: c :: cs)

/-- What a piece is, where `rest` follows it. -/
def Piece.Valid (l : Locale) (rest : Text) : Piece → Prop
  | .space c => isSpace c = true
  | .comment body => '\n' ∉ body ∧ ∀ c ∈ rest.head?, c = '\n'
  | .string q body => (q = double ∨ q = single) ∧ Escaped q body
  | .raw r q dashes o close body => (r = 'r' ∨ r = 'R') ∧ (q = double ∨ q = single) ∧
      closer o = some close ∧
      ∀ u v, body ++ Piece.rawEnd q dashes close = u ++ Piece.rawEnd q dashes close ++ v → u = body
  | .quotedName body => Escaped backtick body
  | .name text => (∃ c cs, text = c :: cs ∧ l.nameStart c = true ∧ (c = '.' → digitNext cs = false) ∧
      cs.all l.nameChar = true) ∧ (∀ c ∈ rest.head?, l.nameChar c = false) ∧
      ((text = ['r'] ∨ text = ['R']) → ∀ c ∈ rest.head?, c ≠ double ∧ c ≠ single)
  | .number text => (∃ c cs, text = c :: cs ∧ (isDigit c = true ∨ c = '.' ∧ digitNext cs = true) ∧
      cs.all numberChar = true) ∧ ∀ c ∈ rest.head?, numberChar c = false
  | .special body => '%' ∉ body ∧ '\n' ∉ body
  | .op text => text ∈ operators ∧ ∀ o ∈ operators, o <+: text ++ rest → o.length ≤ text.length
  | .bracket c => c ∈ ['(', '[', '{', ')', ']', '}']
  | .lambda => True

/-- A text as R reads it. -/
inductive Reads (l : Locale) : Text → List Piece → Prop where
  | nil : Reads l [] []
  | cons {p : Piece} {rest : Text} {ps : List Piece} (hp : p.Valid l rest) (h : Reads l rest ps) :
      Reads l (p.text ++ rest) (p :: ps)

/-- The pieces the tokenizer reads as R does: names without a letter from U+0080 to U+00BF, no white
space from U+00C0 on, and no quote, comment sign or `:::` in an operator of the user's. -/
def Piece.Plain : Piece → Prop
  | .name text => ∀ c ∈ text, c.toNat < 0x80 ∨ 0xC0 ≤ c.toNat
  | .space c => c.toNat < 0xC0
  | .special body => (∀ c ∈ body, c ≠ double ∧ c ≠ single ∧ c ≠ backtick ∧ c ≠ '#') ∧
      ¬ ":::".toList <:+: body
  | _ => True

/-! ## What is to be read off -/

/-- A piece with where it starts, and whether a member operator is right before it. -/
structure Place where
  start : Nat
  piece : Piece
  member : Bool
deriving DecidableEq

/-- Whether what comes next is a member. -/
def Piece.memberAfter (member : Bool) : Piece → Bool
  | .space _ => member
  | .comment _ => member
  | .op text => memberOps.any (·.toList = text)
  | _ => false

def places (start : Nat) (member : Bool) : List Piece → List Place
  | [] => []
  | p :: ps => ⟨start, p, member⟩ :: places (start + p.text.length) (p.memberAfter member) ps

/-- The token is a name or a string of the text by itself and no member, or in an operator of the
user's. -/
def Place.Holds (x : Place) (t : Token) : Prop :=
  match x.piece with
  | .name _ | .quotedName _ | .string _ _ | .raw _ _ _ _ _ _ =>
    t.start = x.start ∧ t.stop = x.start + x.piece.text.length ∧ x.member = false
  | .special _ => x.start ≤ t.start ∧ t.stop ≤ x.start + x.piece.text.length
  | _ => False

/-- No name is reported for a token that is anything else. -/
def OnlyNames (code : Text) (pieces : List Piece) : Prop :=
  ∀ t ∈ reports (tokenize code), t.text ∈ (analyzeR code).defines → ∃ x ∈ places 0 false pieces, x.Holds t

/-- The text a string is read as. -/
def unescaped (q : Char) (body : Text) : Text := (quoted q (body ++ [q])).1

theorem span_stops {p : Char → Bool} {body rest : Text} (hbody : body.all p = true)
    (hrest : ∀ c ∈ rest.head?, p c = false) :
    (body ++ rest).takeWhile p = body ∧ (body ++ rest).dropWhile p = rest := by
  have hall := List.all_eq_true.1 hbody
  rw [List.takeWhile_append_of_pos hall, List.dropWhile_append_of_pos hall]
  cases rest with
  | nil => simp
  | cons c rest => simp [hrest c rfl]

/-! ## What characters are -/

theorem isLetter_iff (c : Char) : isLetter c = true ↔
    (65 ≤ c.toNat ∧ c.toNat ≤ 90) ∨ (97 ≤ c.toNat ∧ c.toNat ≤ 122) := by
  simp only [isLetter, decide_eq_true_eq]
  rfl

theorem isDigit_iff (c : Char) : isDigit c = true ↔ 48 ≤ c.toNat ∧ c.toNat ≤ 57 := by
  simp only [isDigit, decide_eq_true_eq]
  rfl

theorem eq_iff_toNat (c d : Char) : c = d ↔ c.toNat = d.toNat :=
  ⟨fun h => h ▸ rfl, fun h => Char.ext (UInt32.toNat_inj.1 h)⟩

theorem nameStart_iff (c : Char) : nameStart c = true ↔
    isLetter c = true ∨ c.toNat = 46 ∨ c.toNat = 95 ∨ 0xC0 ≤ c.toNat := by
  simp only [nameStart, decide_eq_true_eq, eq_iff_toNat]
  rfl

theorem isSpace_iff (c : Char) : isSpace c = true ↔
    (9 ≤ c.toNat ∧ c.toNat ≤ 13) ∨ c.toNat = 32 ∨
      c.toNat ∈ [0xA0, 0x1680, 0x2028, 0x2029, 0x202F, 0x205F, 0x3000, 0xFEFF] ∨
      (0x2000 ≤ c.toNat ∧ c.toNat ≤ 0x200A) := by
  simp only [isSpace, decide_eq_true_eq, eq_iff_toNat]
  rfl

/-- No white space below U+00C0 is in a name. -/
theorem nameChar_of_space {c : Char} (h : isSpace c = true) (hlow : c.toNat < 0xC0) :
    nameChar c = false := by
  rw [isSpace_iff] at h
  simp only [List.mem_cons, List.not_mem_nil, or_false] at h
  have hname : ¬ (nameStart c = true ∨ isDigit c = true) := by
    rw [nameStart_iff, isLetter_iff, isDigit_iff]
    omega
  simpa [nameChar] using hname

/-- What the tokenizer reads of a piece. -/
def Piece.lexemes : Piece → List Lexeme
  | .space c => [⟨[c], none⟩]
  | .comment body => [⟨'#' :: body, none⟩]
  | .string q body => [⟨q :: body ++ [q], some (.string, unescaped q body)⟩]
  | .raw r q dashes o close body =>
    [⟨(Piece.raw r q dashes o close body).text, some (.string, body)⟩]
  | .quotedName body => [⟨backtick :: body ++ [backtick], some (.name, unescaped backtick body)⟩]
  | .name text => [⟨text, some (.name, text)⟩]
  | .number text => [⟨text, some (.other, ['0'])⟩]
  | .special body =>
    ⟨['%'], some (.other, ['%'])⟩ :: RStatic.lexemes body ++ [⟨['%'], some (.other, ['%'])⟩]
  | .op text => [⟨text, some (.op, text)⟩]
  | .bracket c =>
    [⟨[c], some (if c = '(' ∨ c = '[' ∨ c = '{' then .opening else .closing, [c])⟩]
  | .lambda => [⟨['\\'], some (.other, ['\\'])⟩]

theorem rawString_other {c : Char} (hr : c ≠ 'r') (hR : c ≠ 'R') (cs : Text) : rawString c cs = none := by
  cases cs with
  | nil => rfl
  | cons q cs =>
    rw [rawString, if_neg]
    rintro ⟨h | h, -⟩
    · exact hr h
    · exact hR h

theorem lexeme_number {c : Char} {cs rest : Text}
    (hc : isDigit c = true ∨ c = '.' ∧ digitNext cs = true) (hcs : cs.all numberChar = true)
    (hrest : ∀ d ∈ rest.head?, numberChar d = false) :
    lexeme c (cs ++ rest) = (⟨c :: cs, some (.other, ['0'])⟩, rest) := by
  have hchars : c ≠ '#' ∧ isSpace c = false ∧ c ≠ 'r' ∧ c ≠ 'R' ∧
      ¬ (c = double ∨ c = single ∨ c = backtick) ∧ (nameStart c = true → c = '.') := by
    rcases hc with hdigit | ⟨rfl, -⟩
    · have hnat := (isDigit_iff c).1 hdigit
      have hne : ∀ d : Char, d.toNat < 48 ∨ 57 < d.toNat → c ≠ d := by
        rintro d hd rfl
        omega
      refine ⟨hne _ (by decide), ?_, hne _ (by decide), hne _ (by decide), ?_, fun hstart => ?_⟩
      · have hnot : ¬ isSpace c = true := by
          rw [isSpace_iff]
          simp only [List.mem_cons, List.not_mem_nil, or_false]
          omega
        simpa using hnot
      · rintro (h | h | h)
        · exact hne _ (by decide) h
        · exact hne _ (by decide) h
        · exact hne _ (by decide) h
      · rw [nameStart_iff, isLetter_iff] at hstart
        omega
    · decide
  obtain ⟨hcomment, hspace, hr, hR, hquote, hdot⟩ := hchars
  have hnext : c = '.' → digitNext (cs ++ rest) = true := by
    rintro rfl
    rcases hc with hdigit | ⟨-, hnext⟩
    · exact absurd hdigit (by decide)
    · cases cs with
      | nil => cases hnext
      | cons d cs => exact hnext
  have hnot : ¬ (nameStart c = true ∧ ¬ (c = '.' ∧ digitNext (cs ++ rest) = true)) := by
    rintro ⟨hstart, hno⟩
    exact hno ⟨hdot hstart, hnext (hdot hstart)⟩
  have hnumber : isDigit c = true ∨ c = '.' ∧ digitNext (cs ++ rest) = true :=
    hc.imp_right fun h => ⟨h.1, hnext h.1⟩
  have hspan := span_stops hcs hrest
  rw [lexeme, if_neg hcomment, hspace, if_neg Bool.false_ne_true, rawString_other hr hR]
  simp only [hquote, if_false, hnot, hnumber, if_true, hspan.1, hspan.2]

theorem Piece.text_ne_nil {l : Locale} {p : Piece} {rest : Text} (h : p.Valid l rest) : p.text ≠ [] := by
  cases p with
  | name text =>
    obtain ⟨⟨c, cs, rfl, -⟩, -⟩ := h
    exact List.cons_ne_nil _ _
  | number text =>
    obtain ⟨⟨c, cs, rfl, -⟩, -⟩ := h
    exact List.cons_ne_nil _ _
  | op text =>
    rintro rfl
    exact absurd h.1 (by decide)
  | _ => exact List.cons_ne_nil _ _

instance (x : Place) (t : Token) : Decidable (x.Holds t) := by
  unfold Place.Holds
  split <;> infer_instance

def AllValid (l : Locale) : List Piece → Prop
  | [] => True
  | p :: ps => p.Valid l (ps.flatMap Piece.text) ∧ AllValid l ps

theorem reads_pieces {l : Locale} {pieces : List Piece} (h : AllValid l pieces) :
    Reads l (pieces.flatMap Piece.text) pieces := by
  induction pieces with
  | nil => exact .nil
  | cons p ps ih => exact .cons h.1 (ih h.2)

/-- A name that ends where the text ends, or at a character of no name and no string. -/
theorem valid_name {l : Locale} {c : Char} {cs rest : Text} (hc : l.nameStart c = true)
    (hdot : c ≠ '.') (hcs : cs.all l.nameChar = true)
    (hrest : rest.head?.all (fun d => l.nameChar d = false ∧ d ≠ double ∧ d ≠ single) = true) :
    (Piece.name (c :: cs)).Valid l rest := by
  have hnext : ∀ d ∈ rest.head?, l.nameChar d = false ∧ d ≠ double ∧ d ≠ single := by
    intro d hd
    rw [Option.mem_def.1 hd] at hrest
    simpa using hrest
  exact ⟨⟨c, cs, rfl, hc, fun h => absurd h hdot, hcs⟩, fun d hd => (hnext d hd).1,
    fun _ d hd => (hnext d hd).2⟩

theorem valid_digit {l : Locale} {c : Char} {rest : Text} (hc : isDigit c = true)
    (hrest : rest.head?.all (numberChar · = false) = true) : (Piece.number [c]).Valid l rest := by
  refine ⟨⟨c, [], rfl, .inl hc, rfl⟩, fun d hd => ?_⟩
  rw [Option.mem_def.1 hd] at hrest
  simpa using hrest

theorem valid_space {l : Locale} {rest : Text} : (Piece.space ' ').Valid l rest := by
  show isSpace ' ' = true
  decide

theorem escaped_of_all {q : Char} {body : Text} (h : body.all (fun c => c ≠ q ∧ c ≠ '\\') = true) :
    Escaped q body := by
  induction body with
  | nil => exact .nil
  | cons c cs ih =>
    simp only [List.all_cons, Bool.and_eq_true, decide_eq_true_eq] at h
    exact .plain h.1.1 h.1.2 (ih h.2)

/-- A locale that has one letter more. -/
def micro : Locale where
  letter c := c = 'µ'
  letter_ge := by
    intro c hc
    rw [of_decide_eq_true hc]
    decide
  not_space := by
    intro c hc
    rw [of_decide_eq_true hc]
    decide

/-- `a$b <- x` -/
def slot : List Piece := [.name ['a'], .op ['$'], .name ['b'], .space ' ', .op ['<', '-'], .space ' ',
  .name ['x']]

/-- `x %#% "`, and `y <- 1"` on the next line -/
def hidden : List Piece := [.name ['x'], .space ' ', .special ['#'], .space ' ',
  .string double "\ny <- 1".toList]

theorem valid_hidden : AllValid micro hidden := by
  refine ⟨valid_name ?_ ?_ ?_ ?_, valid_space, ⟨?_, ?_⟩, valid_space, ⟨.inl rfl, escaped_of_all ?_⟩,
    trivial⟩ <;> decide

/-- `a$µx <- 1` -/
def letter : List Piece := [.name ['a'], .op ['$'], .name ['µ', 'x'], .space ' ', .op ['<', '-'],
  .space ' ', .number ['1']]

theorem valid_letter : AllValid micro letter := by
  refine ⟨valid_name ?_ ?_ ?_ ?_, ⟨?_, ?_⟩, valid_name ?_ ?_ ?_ ?_, valid_space, ⟨?_, ?_⟩, valid_space,
    valid_digit ?_ ?_, trivial⟩ <;> decide

/-- Pieces that are not plain: what is in a string is reported, and what is in a member's name. -/
theorem not_plain_misread : (Reads micro (hidden.flatMap Piece.text) hidden ∧
      ¬ OnlyNames (hidden.flatMap Piece.text) hidden) ∧
    Reads micro (letter.flatMap Piece.text) letter ∧
      ¬ OnlyNames (letter.flatMap Piece.text) letter := by
  refine ⟨⟨reads_pieces valid_hidden, fun h => ?_⟩, reads_pieces valid_letter, fun h => ?_⟩
  · exact absurd (h ⟨.name, ['y'], 8, 9⟩ (by decide) (by decide)) (by decide)
  · exact absurd (h ⟨.name, ['x'], 3, 4⟩ (by decide) (by decide)) (by decide)

end Jovian.RStatic
