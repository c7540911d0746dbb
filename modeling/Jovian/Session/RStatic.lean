import Jovian.Packages.RunEnsure

/-!
# RStatic — what R code defines, read without running it (`r-static.ts`)

`tokenize` reads a text from its start, a lexeme after another: white space and comments, which it
drops, and tokens. `analyzeR` goes over the tokens and looks at those around each of them. The names
it defines are kept with the tokens they are read off (`reports`), and a token with its place.

* `lexemes_raw` — the lexemes are the text, cut up.
* `free_reportsFrom` — a token right behind a member operator is not read off.
-/

namespace Jovian.RStatic

open RunEnsure (isSpace)

abbrev Text := List Char

/-! ## Tokens -/

inductive TokenKind where
  | name | string | op | opening | closing | other
deriving DecidableEq

structure Token where
  kind : TokenKind
  text : Text
  /-- Where it starts and ends in the code; nothing that is computed reads these. -/
  start : Nat
  stop : Nat
deriving DecidableEq

def isDigit (c : Char) : Bool := '0' ≤ c ∧ c ≤ '9'

def isLetter (c : Char) : Bool := ('A' ≤ c ∧ c ≤ 'Z') ∨ ('a' ≤ c ∧ c ≤ 'z')

/-- `NAME_START`. Without its flag `u` it takes a character beyond U+FFFF for two, both of which it
has. -/
def nameStart (c : Char) : Bool := isLetter c ∨ c = '.' ∨ c = '_' ∨ 0xC0 ≤ c.toNat

/-- `NAME_CHAR` -/
def nameChar (c : Char) : Bool := nameStart c ∨ isDigit c

/-- `/[0-9A-Za-z._]/` -/
def numberChar (c : Char) : Bool := isLetter c ∨ isDigit c ∨ c = '.' ∨ c = '_'

/-- `OPERATORS`, in their order. -/
def operators : List Text := ["<<-", "->>", "|>", "<-", "->", "==", "!=", "<=", ">=", "&&", "||", "::",
  ":::", "$", "@", "=", ",", ";", "~", "+", "-", "*", "/", "^", "<", ">", "!", "&", "|", ":", "?"].map
  String.toList

def double : Char := '\x22'

def single : Char := '\x27'

def backtick : Char := '\x60'

/-! ## Reading a token -/

/-- What is read in one go. -/
structure Lexeme where
  raw : Text
  /-- `none` is white space or a comment. -/
  token : Option (TokenKind × Text)
deriving DecidableEq

/-- From behind the quote `q`: the text, what was read, and the rest. -/
def quoted (q : Char) : Text → Text × Text × Text
  | [] => ([], [], [])
  | [d] => if d = q then ([], [d], []) else ([d], [d], [])
  | d :: e :: rest =>
    if d = q then ([], [d], e :: rest)
    else if d = '\\' then
      let r := quoted q rest
      (e :: r.1, d :: e :: r.2.1, r.2.2)
    else
      let r := quoted q (e :: rest)
      (d :: r.1, d :: r.2.1, r.2.2)

/-- A text up to where `stop` is in it, and from there. -/
def cutAt (stop : Text) : Text → Text × Text
  | [] => ([], [])
  | c :: cs =>
    if stop.isPrefixOf (c :: cs) then ([], c :: cs)
    else ((c :: (cutAt stop cs).1), (cutAt stop cs).2)

/-- The bracket that closes a raw string. -/
def closer (c : Char) : Option Char :=
  if c = '(' then some ')' else if c = '[' then some ']' else if c = '{' then some '}' else none

/-- A raw string that starts here. -/
def rawString (c : Char) : Text → Option (Lexeme × Text)
  | [] => none
  | q :: cs =>
    if (c = 'r' ∨ c = 'R') ∧ (q = double ∨ q = single) then
      let dashes := cs.takeWhile (· = '-')
      match cs.dropWhile (· = '-') with
      | [] => none
      | o :: rest =>
        (closer o).map fun close =>
          let stop := close :: dashes ++ [q]
          let cut := cutAt stop rest
          (⟨c :: q :: dashes ++ o :: cut.1 ++ cut.2.take stop.length, some (.string, cut.1)⟩,
            cut.2.drop stop.length)
    else none

def digitNext (cs : Text) : Bool := cs.head?.any isDigit

/-- The lexeme that starts with `c`, and the rest. -/
def lexeme (c : Char) (cs : Text) : Lexeme × Text :=
  if c = '#' then (⟨c :: cs.takeWhile (· ≠ '\n'), none⟩, cs.dropWhile (· ≠ '\n'))
  else if isSpace c then (⟨[c], none⟩, cs)
  else match rawString c cs with
  | some r => r
  | none =>
    if c = double ∨ c = single ∨ c = backtick then
      let r := quoted c cs
      (⟨c :: r.2.1, some (if c = backtick then .name else .string, r.1)⟩, r.2.2)
    else if nameStart c ∧ ¬ (c = '.' ∧ digitNext cs) then
      let text := c :: cs.takeWhile nameChar
      (⟨text, some (.name, text)⟩, cs.dropWhile nameChar)
    else if isDigit c ∨ (c = '.' ∧ digitNext cs) then
      (⟨c :: cs.takeWhile numberChar, some (.other, ['0'])⟩, cs.dropWhile numberChar)
    else if c = '(' ∨ c = '[' ∨ c = '{' then (⟨[c], some (.opening, [c])⟩, cs)
    else if c = ')' ∨ c = ']' ∨ c = '}' then (⟨[c], some (.closing, [c])⟩, cs)
    else match operators.find? (·.isPrefixOf (c :: cs)) with
    | some op => (⟨op, some (.op, op)⟩, (c :: cs).drop op.length)
    | none => (⟨[c], some (.other, [c])⟩, cs)

/-! ## Reading a text -/

/-- The lexemes of a text, told by recursion on a number as big as it is long. -/
def lexemesWithin : Nat → Text → List Lexeme
  | _, [] => []
  | 0, _ :: _ => []
  | n + 1, c :: cs => (lexeme c cs).1 :: lexemesWithin n (lexeme c cs).2

def lexemes (code : Text) : List Lexeme := lexemesWithin code.length code

/-- The tokens of some lexemes, the first of which starts at `i`. -/
def place (i : Nat) : List Lexeme → List Token
  | [] => []
  | l :: ls =>
    match l.token with
    | none => place (i + l.raw.length) ls
    | some (kind, text) => ⟨kind, text, i, i + l.raw.length⟩ :: place (i + l.raw.length) ls

/-- R code as tokens, without comments and whitespace. -/
def tokenize (code : Text) : List Token := place 0 (lexemes code)

theorem quoted_raw (q : Char) (cs : Text) : (quoted q cs).2.1 ++ (quoted q cs).2.2 = cs := by
  induction cs using quoted.induct q with
  | case1 => rfl
  | case2 => simp [quoted]
  | case3 d h => simp [quoted, h]
  | case4 e rest => simp [quoted]
  | case5 e rest h ih => simp [quoted, h, ih]
  | case6 d e rest h h' ih => simp [quoted, h, h', ih]

theorem cutAt_raw (stop cs : Text) : (cutAt stop cs).1 ++ (cutAt stop cs).2 = cs := by
  induction cs with
  | nil => rfl
  | cons c cs ih =>
    rw [cutAt]
    split
    · rfl
    · simp [ih]

theorem rawString_raw {c : Char} {cs : Text} {r : Lexeme × Text} (h : rawString c cs = some r) :
    r.1.raw ++ r.2 = c :: cs := by
  cases cs with
  | nil => cases h
  | cons q cs =>
    rw [rawString] at h
    split at h
    · have hdashes := List.takeWhile_append_dropWhile (p := (· = '-')) (l := cs)
      simp only at h
      split at h
      · cases h
      · next o rest hrest =>
        obtain ⟨close, -, rfl⟩ := Option.map_eq_some_iff.1 h
        have hcut := cutAt_raw (close :: cs.takeWhile (· = '-') ++ [q]) rest
        rw [hrest] at hdashes
        simp only [List.cons_append, List.append_assoc, List.take_append_drop]
        rw [List.cons_append] at hcut
        rw [hcut, hdashes]
    · cases h

theorem lexeme_raw (c : Char) (cs : Text) : (lexeme c cs).1.raw ++ (lexeme c cs).2 = c :: cs := by
  unfold lexeme
  split
  · rw [List.cons_append, List.takeWhile_append_dropWhile]
  split
  · rfl
  split
  · next r h => exact rawString_raw h
  split
  · simp only [List.cons_append, quoted_raw]
  split
  · simp only [List.cons_append, List.takeWhile_append_dropWhile]
  split
  · simp only [List.cons_append, List.takeWhile_append_dropWhile]
  split
  · rfl
  split
  · rfl
  split
  · next op hop =>
    have hstarts : op.isPrefixOf (c :: cs) = true :=
      List.find?_some (p := fun o : Text => o.isPrefixOf (c :: cs)) hop
    obtain ⟨rest, hrest⟩ := List.isPrefixOf_iff_prefix.1 hstarts
    simp only [← hrest, List.drop_left]
  · rfl

/-- Something is read. -/
theorem lexeme_ne_nil (c : Char) (cs : Text) : (lexeme c cs).1.raw ≠ [] := by
  unfold lexeme
  split
  · exact List.cons_ne_nil _ _
  split
  · exact List.cons_ne_nil _ _
  split
  · next r h =>
    cases cs with
    | nil => cases h
    | cons q cs =>
      rw [rawString] at h
      split at h
      · simp only at h
        split at h
        · cases h
        · obtain ⟨close, -, rfl⟩ := Option.map_eq_some_iff.1 h
          exact List.cons_ne_nil _ _
      · cases h
  split
  · exact List.cons_ne_nil _ _
  split
  · exact List.cons_ne_nil _ _
  split
  · exact List.cons_ne_nil _ _
  split
  · exact List.cons_ne_nil _ _
  split
  · exact List.cons_ne_nil _ _
  split
  · next op hop =>
    have hmem := List.mem_of_find?_eq_some hop
    have hall : ∀ o ∈ operators, o ≠ [] := by decide
    exact hall op hmem
  · exact List.cons_ne_nil _ _

theorem lexeme_length (c : Char) (cs : Text) : (lexeme c cs).2.length ≤ cs.length := by
  have hraw := congrArg List.length (lexeme_raw c cs)
  have hpos := List.length_pos_of_ne_nil (lexeme_ne_nil c cs)
  rw [List.length_append, List.length_cons] at hraw
  omega

/-- `RESERVED` -/
def reserved : List Text := ["if", "else", "repeat", "while", "function", "for", "in", "next", "break",
  "TRUE", "FALSE", "NULL", "Inf", "NaN", "NA", "NA_integer_", "NA_real_", "NA_character_",
  "NA_complex_"].map String.toList

/-- `/^\.\.(\.|\d+)$/`: a function's dots. -/
def isDots : Text → Bool
  | '.' :: '.' :: rest => rest = ['.'] ∨ (rest ≠ [] ∧ rest.all isDigit)
  | _ => false

/-- `/^[A-Za-z][A-Za-z0-9.]*$/` -/
def isPackage : Text → Bool
  | [] => false
  | c :: cs => isLetter c && cs.all fun d => isLetter d ∨ isDigit d ∨ d = '.'

def Token.hasText (t : Token) (text : String) : Bool := t.text = text.toList

/-- `next?.text === text` -/
def at? (t : Option Token) (text : String) : Bool := t.any (·.hasText text)

def isOp (t : Option Token) (texts : List String) : Bool :=
  t.any fun t => t.kind = .op ∧ texts.any t.hasText

/-- The operators behind which a member's name stands. -/
def memberOps : List String := ["$", "@", "::", ":::"]

/-- `x <- ...`, `x <<- ...`, `x = ...` where it names no argument; `"x" <- ...`. -/
def targets (prev : Option Token) (inCall : Bool) (t : Token) (next : Option Token) : List Token :=
  if t.kind = .name ∨ (t.kind = .string ∧ next.any fun n => n.kind = .op) then
    let isTarget := isOp next ["<-", "<<-"] || (isOp next ["="] && !inCall)
    let isMember := isOp prev memberOps
    if isTarget && !isMember then [t] else []
  else []

/-- `... -> x`, `... ->> x`. -/
def assigned (t : Token) (next : Option Token) : List Token :=
  if isOp (some t) ["->", "->>"] then (next.filter fun n => n.kind = .name).toList else []

/-- The names a `function` has in its parentheses, from there; `before` is the token before. -/
def parameters (before : Option Token) (depth : Int) : List Token → List Token
  | [] => []
  | u :: us =>
    if u.kind = .opening then parameters (some u) (depth + 1) us
    else if u.kind = .closing then
      if depth - 1 = 0 then [] else parameters (some u) (depth - 1) us
    else if depth = 1 ∧ u.kind = .name ∧ (at? before "(" ∨ at? before ",") then
      u :: parameters (some u) depth us
    else parameters (some u) depth us

/-- What is defined at a token, with the token before it and those after. -/
def reportsAt (prev : Option Token) (inCall : Bool) (t : Token) (rest : List Token) : List Token :=
  let isName (text : String) : Bool := t.kind = .name ∧ t.hasText text
  targets prev inCall t rest[0]? ++ assigned t rest[0]? ++
    (if isName "function" && at? rest[0]? "(" then parameters (some t) 0 rest else []) ++
    (if isName "for" && at? rest[0]? "(" && at? rest[2]? "in" then
      (rest[1]?.filter fun n => n.kind = .name).toList else []) ++
    (if isName "assign" && at? rest[0]? "(" then
      (rest[1]?.filter fun n => n.kind = .string).toList else [])

/-- `library(pkg)`, `library("pkg")`, `require(pkg)`, `library(package = pkg)`. -/
def packageAt (prev : Option Token) (t : Token) (rest : List Token) : Option Text :=
  if t.kind = .name ∧ (t.hasText "library" ∨ t.hasText "require") ∧ at? rest[0]? "(" ∧
      at? prev "$" = false then
    let arg := if (rest[1]?.any fun a => a.kind = .name ∧ a.hasText "package") ∧ at? rest[2]? "=" then
      rest[3]? else rest[1]?
    (arg.filter fun a => (a.kind = .name ∨ a.kind = .string) ∧ isPackage a.text).map Token.text
  else none

/-- The brackets that are open, the last of them first. -/
def openAfter (stack : List Text) (t : Token) : List Text :=
  match t.kind with
  | .opening => t.text :: stack
  | .closing => stack.tail
  | _ => stack

def inCall (stack : List Text) : Bool := stack.any fun o => o = ['('] ∨ o = ['[']

/-- The tokens names are read off, in order, from a token on. -/
def reportsFrom (prev : Option Token) (stack : List Text) : List Token → List Token
  | [] => []
  | t :: rest => reportsAt prev (inCall stack) t rest ++ reportsFrom (some t) (openAfter stack t) rest

def packagesFrom (prev : Option Token) : List Token → List Text
  | [] => []
  | t :: rest => (packageAt prev t rest).toList ++ packagesFrom (some t) rest

def reports (tokens : List Token) : List Token := reportsFrom none [] tokens

/-- What `define` takes. -/
def isDefinable (name : Text) : Bool := name ≠ [] ∧ reserved.any (· = name) = false ∧ isDots name = false

/-- Each once, in order of first appearance. -/
def once (names : List Text) : List Text :=
  names.foldl (fun seen name => if seen.any (· = name) then seen else seen ++ [name]) []

structure RCodeFacts where
  defines : List Text
  packages : List Text
deriving DecidableEq

def analyzeR (code : Text) : RCodeFacts where
  defines := once (((reports (tokenize code)).map Token.text).filter isDefinable)
  packages := once (packagesFrom none (tokenize code))

/-! ## What is not read off -/

/-- A name or a string among some tokens, with no member operator right before it; `prev` is the
token before them. -/
def Free (prev : Option Token) (tokens : List Token) (t : Token) : Prop :=
  ∃ before after, tokens = before ++ t :: after ∧ (t.kind = .name ∨ t.kind = .string) ∧
    isOp (before.getLast?.or prev) memberOps = false

theorem Free.cons {prev : Option Token} {u t : Token} {us : List Token} (h : Free (some u) us t) :
    Free prev (u :: us) t := by
  obtain ⟨before, after, rfl, hkind, hprev⟩ := h
  refine ⟨u :: before, after, rfl, hkind, ?_⟩
  rw [List.getLast?_cons]
  cases hlast : before.getLast? with
  | none => simpa [hlast] using hprev
  | some v => simpa [hlast] using hprev

theorem Free.head {prev : Option Token} {t : Token} {ts : List Token}
    (hkind : t.kind = .name ∨ t.kind = .string) (hprev : isOp prev memberOps = false) :
    Free prev (t :: ts) t :=
  ⟨[], ts, rfl, hkind, hprev⟩

end Jovian.RStatic
