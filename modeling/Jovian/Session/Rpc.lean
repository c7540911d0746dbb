import Jovian.Kernel.RToJson
import Jovian.Session.AttachCode

/-!
# Rpc — a call of one of the kernel's methods (`Session.rpc`), and its answer

The arguments become JSON, the JSON a string in R code, and the code a user expression of a silent
execution. R reads the string, Elara the JSON in it; the method's value becomes JSON again, which is
printed, captured line by line, and read by the session.

* **`rpc_serves`** — all that is the method itself, called with the arguments: whatever text is in them, the
  session gets the value's JSON, or fails with the error of the method, or for want of it.
-/

namespace Jovian.Rpc

open RHelper (Text readArguments rString)
open RJson (Sexp Atomic Attributes sexpToJson jsonToSexp toJson)

/-! ## The code -/

def callHead : Text := "base::as.environment(\"tools:jovian\")$.jv.rpc.call(".toList

/-- A JSON string is a valid R string. -/
def rpcCode (method : String) (args : Json) : Text :=
  callHead ++ (Json.dump (.string method) ++ (", ".toList ++
    (Json.dump (.string (String.ofList (Json.dump args))) ++ [')'])))

/-- What a piece of code calls, where it is one of those above: the method, and its arguments' text. -/
def callOf (code : Text) : Option (Text × Text) :=
  match readArguments code.length (code.drop callHead.length) with
  | some ([method, args], [')']) => if code.take callHead.length = callHead then some (method, args) else none
  | _ => none

/-! ## In R -/

/-- An R error: its class and its message. -/
structure Condition where
  ename : String
  evalue : String

/-- What is at hand in the kernel. -/
structure Elara where
  /-- The `.jv.rpc.*` functions. -/
  methods : String → Option (Sexp → Except Condition Sexp)
  /-- What other code gives, printed. -/
  other : Text → Except Condition Text
  /-- `as.character()` of a vector of a class -/
  asCharacter : Atomic → Attributes → List (Option String)
  /-- The error of a string with a NUL in it. -/
  nul : Condition
  /-- The numbers that `json::parse` can hold, and what they are. -/
  inRange : String → Bool
  number : String → JsonValue
  number_proper : ∀ s, (number s).Proper
  /-- `%.15g` -/
  g15 : Double → String
  spelling : JsonValue.Spelling

namespace Elara

variable (k : Elara)

/-- `json::parse` that does not throw -/
def parse (text : String) : JsonValue := JsonValue.ofJson k.number (Json.parse k.inRange text.toList)

/-- `elara_from_json` -/
def fromJson (text : Text) : Except Condition Sexp :=
  match jsonToSexp k.g15 (k.parse (String.ofList text)) with
  | some x => .ok x
  | none => .error k.nul

mutual

/-- `.jv.json.prepare`: a vector of a class as its text. -/
def prepare : Sexp → Sexp
  | .list xs a => .list (prepareElements xs) a
  | .atomic v a =>
    if a.classes ≠ [] ∧ a.inherits "factor" = false ∧ a.inherits "AsIs" = false ∧ a.inherits "json" = false then
      .atomic (.character (k.asCharacter v a)) {}
    else .atomic v a
  | x => x

def prepareElements : List Sexp → List Sexp
  | [] => []
  | x :: xs => prepare x :: prepareElements xs

end

/-- `.jv.json.write(x, null = "null")` -/
def jsonWrite (x : Sexp) : Option Text :=
  toJson k.parse k.spelling (k.prepare x) (some "null")

/-- `as.list` of what an object is read as. -/
def asList : Sexp → Sexp
  | .null => .list [] {}
  | x => x

/-- `.jv.rpc.call`, with what printing its value writes; `none` where a vector is read outside. -/
def call (method args : Text) : Option (Except Condition Text) :=
  match k.methods (String.ofList method) with
  | none => some (.error { ename := "simpleError", evalue := "no such method: " ++ String.ofList method })
  | some fn =>
    match (if args = [] then .ok (.list [] {}) else k.fromJson args) with
    | .error c => some (.error c)
    | .ok list =>
      match fn (asList list) with
      | .error c => some (.error c)
      | .ok x => (k.jsonWrite x).map fun text => .ok (text ++ ['\n'])

/-- `paste(capture.output(..), collapse = '\n')` -/
def captured (output : Text) : Text :=
  let lines := output.splitOn '\n'
  ['\n'].intercalate (if lines.getLast? = some [] then lines.dropLast else lines)

/-- The value of an expression, printed and captured, or its error. -/
def evaluate (expression : Text) : Option (Except Condition Text) :=
  let printed := match callOf expression with
    | some (method, args) => k.call method args
    | none => some (k.other expression)
  printed.map fun output => output.map captured

def kSessionStateKey : String := ".jovian_state"

/-- One bad expression does not sink the others. -/
def evalUserExpressions (sessionState : Text) :
    List (String × Json) → Option (List (String × Except Condition Text))
  | [] => some []
  | (key, expression) :: more => do
    let result ←
      if key = kSessionStateKey then some (.ok sessionState)
      else k.evaluate ((expression.string?).getD "").toList
    let results ← evalUserExpressions sessionState more
    return Members.set key result results

end Elara

/-! ## In the session -/

def rpcKey : String := ".jovian_rpc"

inductive Thrown where
  | error (message : String)
  /-- `JSON.parse` -/
  | syntaxError

/-- The value of an answer. -/
def answerOf (method : String) : Option (Except Condition Text) → Except Thrown Json
  | some (.ok text) =>
    match Json.read .strict text with
    | some v => .ok v
    | none => .error .syntaxError
  | some (.error c) => .error (.error (method ++ " failed: " ++ c.evalue))
  | none => .error (.error (method ++ " failed: no reply"))

/-- The user expressions of an execution, in the order that Elara has them in; where there is a helper, the
session asks for its state too. -/
def userExpressions (helper : Bool) (code : Text) : List (String × Json) :=
  (rpcKey, .string (String.ofList code)) ::
    if helper then [(Elara.kSessionStateKey, .string "invisible(NULL)")] else []

/-- `Session.rpc`, of a kernel that is at hand. -/
def rpc (k : Elara) (helper : Bool) (sessionState : Text) (method : String) (args : Json) :
    Option (Except Thrown Json) :=
  (k.evalUserExpressions sessionState (userExpressions helper (rpcCode method args))).map fun results =>
    answerOf method ((results.filter fun r => r.1 ≠ Elara.kSessionStateKey).lookup rpcKey)

/-! ## The method itself -/

/-- The call, without any text between: JSON in, JSON out. -/
def serve (k : Elara) (method : String) (args : JsonValue) : Option (Except Thrown Json) :=
  match k.methods method with
  | none => some (.error (.error (method ++ " failed: " ++ ("no such method: " ++ method))))
  | some fn =>
    match jsonToSexp k.g15 args with
    | none => some (.error (.error (method ++ " failed: " ++ k.nul.evalue)))
    | some list =>
      match fn list with
      | .error c => some (.error (.error (method ++ " failed: " ++ c.evalue)))
      | .ok x => (sexpToJson k.parse false (k.prepare x)).map fun v => .ok (v.spelled k.spelling)

/-- A method whose values are as R makes them, with JSON in the strings that say so. -/
def GivesJson (k : Elara) (method : String) : Prop :=
  ∀ fn, k.methods method = some fn → ∀ list x, fn list = .ok x →
    RJson.WellFormed (k.prepare x) ∧ RJson.Clean k.parse (k.prepare x)

/-! ## The code is read as it was meant -/

theorem escapeChar_eq {c : Char} (h : 0x20 ≤ c.toNat) : Json.escapeChar c = RHelper.escaped c := by
  have hcontrol : ∀ d : Char, d.toNat < 0x20 → c ≠ d := by
    rintro d hd rfl
    omega
  unfold Json.escapeChar RHelper.escaped
  by_cases hquote : c = '"'
  · subst hquote
    rfl
  · rw [if_neg hquote, if_neg hquote, if_neg (hcontrol '\x08' (by decide)), if_neg (hcontrol '\x0c' (by decide)),
      if_neg (hcontrol '\n' (by decide)), if_neg (hcontrol '\r' (by decide)), if_neg (hcontrol '\t' (by decide)),
      if_neg (show ¬ c.toNat < 0x20 by omega)]

theorem flatMap_escapeChar {text : Text} (h : ∀ c ∈ text, 0x20 ≤ c.toNat) :
    text.flatMap Json.escapeChar = text.flatMap RHelper.escaped := by
  induction text with
  | nil => rfl
  | cons c text ih =>
    rw [List.flatMap_cons, List.flatMap_cons, escapeChar_eq (h c (List.mem_cons_self ..)),
      ih fun d hd => h d (List.mem_cons_of_mem _ hd)]

/-- On one line, JSON's escapes are R's. -/
theorem dump_string {s : String} (h : ∀ c ∈ s.toList, 0x20 ≤ c.toNat) :
    Json.dump (.string s) = rString s.toList := by
  show ('"' :: (s.toList.flatMap Json.escapeChar ++ ['"'])) ++ [] = _
  rw [RHelper.rString_eq, List.append_nil, flatMap_escapeChar h]

theorem callOf_rpcCode {method : String} {args : Json} (hmethod : ∀ c ∈ method.toList, 0x20 ≤ c.toNat)
    (hargs : ∀ c ∈ Json.dump args, 0x20 ≤ c.toNat) :
    callOf (rpcCode method args) = some (method.toList, Json.dump args) := by
  have hcode : rpcCode method args =
      callHead ++ ([',', ' '].intercalate ([method.toList, Json.dump args].map rString) ++ [')']) := by
    have hargs' : ∀ c ∈ (String.ofList (Json.dump args)).toList, 0x20 ≤ c.toNat := by
      rw [String.toList_ofList]
      exact hargs
    rw [rpcCode, dump_string hmethod, dump_string hargs', String.toList_ofList]
    show _ = callHead ++ ([',', ' '].intercalate [rString method.toList, rString (Json.dump args)] ++ [')'])
    rw [List.intercalate_cons_of_ne_nil (List.cons_ne_nil _ _), List.intercalate_singleton]
    simp
  have hlength : 2 < (rpcCode method args).length := by
    have hhead : 2 < callHead.length := by decide
    rw [hcode, List.length_append]
    omega
  have hread := RHelper.readArguments_append
    (show [method.toList, Json.dump args].length < (rpcCode method args).length from hlength) []
  unfold callOf
  rw [hcode] at hread ⊢
  rw [List.drop_left, hread]
  exact if_pos List.take_left

/-! ## What R reads, and what it prints -/

namespace Elara

variable {k : Elara}

theorem parse_dump {ms : List (String × Json)} (hms : ∀ m ∈ ms, m.2.Canonical)
    (hrange : ∀ s, .number s ∈ Json.tokens (.object ms) → k.inRange s = true) :
    k.parse (String.ofList (Json.dump (.object ms))) = JsonValue.ofJson k.number (.object (Json.inOrder ms)) := by
  rw [parse, String.toList_ofList,
    Json.parse_of_read (Json.lex_members hms) (Json.parseTokens_members hms) hrange]

/-- What `json::parse` reads is a value, or discarded. -/
theorem parse_proper (text : String) : (k.parse text).isDiscarded ∨ (k.parse text).Proper := by
  have hread : ∀ r : Option Json, (∀ v, r = some v → v.Canonical) →
      (JsonValue.ofJson k.number (r.getD .discarded)).isDiscarded ∨
        (JsonValue.ofJson k.number (r.getD .discarded)).Proper := by
    intro r hr
    cases r with
    | none => exact .inl rfl
    | some v => exact .inr (JsonValue.proper_ofJson k.number_proper (hr v rfl))
  unfold parse Json.parse
  split
  · exact hread _ fun v hv => Json.read_canonical hv
  · exact hread _ fun v hv => Json.read_canonical hv

theorem captured_line {text : Text} (h : '\n' ∉ text) : captured (text ++ ['\n']) = text := by
  have hlines : (text ++ ['\n']).splitOn '\n' = [text, []] := by
    have hjoined : text ++ ['\n'] = ['\n'].intercalate [text, []] := by simp [List.intercalate]
    rw [hjoined]
    apply List.splitOn_intercalate
    · simp [h]
    · exact List.cons_ne_nil _ _
  rw [captured, hlines]
  exact List.intercalate_singleton

/-- A method's value, printed, is its JSON on one line. -/
theorem jsonWrite_eq {x : Sexp} (hformed : RJson.WellFormed (k.prepare x)) (hclean : RJson.Clean k.parse (k.prepare x)) :
    (sexpToJson k.parse false (k.prepare x) = none ∧ k.jsonWrite x = none) ∨
      ∃ v text, sexpToJson k.parse false (k.prepare x) = some v ∧ k.jsonWrite x = some text ∧
        captured (text ++ ['\n']) = text ∧ Json.read .strict text = some (v.spelled k.spelling) := by
  have hwrite : k.jsonWrite x = (sexpToJson k.parse false (k.prepare x)).map (JsonValue.text k.spelling) := rfl
  cases hv : sexpToJson k.parse false (k.prepare x) with
  | none => exact .inl ⟨rfl, by rw [hwrite, hv, Option.map_none]⟩
  | some v =>
    have hproper : v.Proper := (RJson.proper_iff parse_proper hformed hv).2 hclean
    have hnewline : '\n' ∉ JsonValue.text k.spelling v := by
      intro hmem
      have hplain := Json.dump_plain (Json.lex_dump (JsonValue.canonical_spelled k.spelling hproper)) _ hmem
      exact absurd hplain (by decide)
    exact .inr ⟨v, JsonValue.text k.spelling v, rfl, by rw [hwrite, hv, Option.map_some], captured_line hnewline,
      JsonValue.read_text k.spelling hproper⟩

/-- An object is read as a list. -/
theorem asList_of_object {ms : List (String × JsonValue)} {list : Sexp}
    (h : jsonToSexp k.g15 (.object ms) = some list) : asList list = list := by
  rw [jsonToSexp] at h
  obtain ⟨xs, -, hlist⟩ := Option.bind_eq_some_iff.1 h
  obtain rfl := Option.some.inj hlist
  rfl

end Elara

/-! ## The call -/

/-- The session takes its answer from among the others. -/
theorem rpc_eq (k : Elara) (helper : Bool) (sessionState : Text) (method : String) (args : Json) :
    rpc k helper sessionState method args =
      (k.evaluate (rpcCode method args)).map fun result => answerOf method (some result) := by
  have hkey : rpcKey ≠ Elara.kSessionStateKey := by decide
  have hcode : ((Json.string (String.ofList (rpcCode method args))).string?.getD "").toList = rpcCode method args :=
    String.toList_ofList
  cases helper with
  | false =>
    simp only [rpc, userExpressions, Elara.evalUserExpressions, if_neg hkey, hcode, Bool.false_eq_true, if_false]
    cases k.evaluate (rpcCode method args) with
    | none => rfl
    | some result => rfl
  | true =>
    have hlt : rpcKey < Elara.kSessionStateKey := by decide
    simp only [rpc, userExpressions, Elara.evalUserExpressions, if_neg hkey, hcode, if_true]
    cases k.evaluate (rpcCode method args) with
    | none => rfl
    | some result =>
      show some (answerOf method (((Members.set rpcKey result [(Elara.kSessionStateKey, .ok sessionState)]).filter
        fun r => r.1 ≠ Elara.kSessionStateKey).lookup rpcKey)) = _
      rw [Members.set, if_neg hkey, if_pos hlt]
      simp [hkey]

/-- **A call of a method is the method's**: it has the arguments as R has them, and its value is back as JSON. -/
theorem rpc_serves (k : Elara) (helper : Bool) (sessionState : Text) {method : String} {ms : List (String × Json)}
    (hmethod : ∀ c ∈ method.toList, 0x20 ≤ c.toNat) (hms : ∀ m ∈ ms, m.2.Canonical)
    (hrange : ∀ s, .number s ∈ Json.tokens (.object ms) → k.inRange s = true) (hgives : GivesJson k method) :
    rpc k helper sessionState method (.object ms) =
      serve k method (JsonValue.ofJson k.number (.object (Json.inOrder ms))) := by
  have hargs := Json.dump_plain (Json.lex_members hms)
  have hne : Json.dump (.object ms) ≠ [] := by cases ms <;> exact List.cons_ne_nil _ _
  rw [rpc_eq, Elara.evaluate, callOf_rpcCode hmethod hargs]
  simp only [Elara.call, String.ofList_toList, serve]
  cases hfn : k.methods method with
  | none => rfl
  | some fn =>
    simp only [if_neg hne, Elara.fromJson, Elara.parse_dump hms hrange]
    cases hlist : jsonToSexp k.g15 (JsonValue.ofJson k.number (.object (Json.inOrder ms))) with
    | none => rfl
    | some list =>
      simp only [Elara.asList_of_object hlist]
      cases hx : fn list with
      | error c => rfl
      | ok x =>
        obtain ⟨hformed, hclean⟩ := hgives fn hfn list x hx
        rcases Elara.jsonWrite_eq hformed hclean with ⟨hnone, hwrite⟩ | ⟨v, text, hv, hwrite, hline, hread⟩
        · simp only [hnone, hwrite, Option.map_none]
        · simp only [hv, hwrite, Option.map_some, Except.map, hline, answerOf, hread]

/-- Help is asked for, of a topic with a quote and a backslash in its name. -/
def helpUrl : List (String × Json) := [("topic", .string "a\"\\b"), ("package", .string "stats")]

def helpAnswer : Sexp := .atomic (.character [some "http://127.0.0.1:1/a"]) {}

def helpServer : Elara where
  methods method := if method = "help_url" then some fun _ => .ok helpAnswer else none
  other _ := .ok []
  asCharacter _ _ := []
  nul := { ename := "simpleError", evalue := "embedded nul in string" }
  inRange _ := true
  number _ := .integer 1
  number_proper _ := .integer 1
  g15 _ := "1"
  spelling := RJson.ones

theorem rpc_serves_help :
    rpc helpServer true "\x7b\x7d".toList "help_url" (.object helpUrl) = some (.ok (.string "http://127.0.0.1:1/a")) := by
  refine (rpc_serves helpServer true _ (Json.plain_of_all rfl) ?_ ?_ ?_).trans rfl
  · intro m hm
    simp only [helpUrl, List.mem_cons, List.not_mem_nil, or_false] at hm
    rcases hm with rfl | rfl <;> exact .string _
  · exact fun s _ => rfl
  · intro fn hfn list x hx
    obtain rfl := Option.some.inj hfn
    obtain rfl := Except.ok.inj hx
    refine ⟨.atomic fun nrow ncol hdim => absurd hdim.symm (Option.some_ne_none _), ?_⟩
    intro y hy
    cases hy.cases_head with
    | inl heq =>
      subst heq
      intro text htext
      exact absurd htext.symm (Option.some_ne_none text)
    | inr hstep =>
      obtain ⟨z, hkept, -⟩ := hstep
      cases hkept

end Jovian.Rpc
