import Jovian.Lib.Json

/-!
# Jovian — a session's options, and their way there and back

What a session was started with is written and read in five places: the supervisor parses
the body of a request (`parseSessionOptions`) and reports the options of a session
(`sessionToJson`); the client builds that body (`buildSessionOptionsBody`), takes the reported
options as its own (`attachSession`), and merges changes into them (`Session.restart`).

* **`options_survive_iff`** — the way from the supervisor to a client that reconnects, and back
  with the next restart, keeps a session's options exactly when it has no kernel command of
  its own: the report leaves out `kernelArgv`, `kernelEnv` and `kernelInterruptMode`.

`std::map`s are lists of pairs here. What the file system decides is a parameter: how a path
is made absolute, and what is discovered of the runtimes that are installed.
-/

namespace Jovian.Supervisor

/-! ## The options -/

/-- The options that are strings. -/
inductive TextField where
  | kernelType | rHome | rPath | rLibs | pandocPath | pythonHome | pythonPath | venvPath
  | stataHome | stataEdition | arkPath | kernelInterruptMode | workingDirectory
deriving DecidableEq, Repr

namespace TextField

def key : TextField → String
  | kernelType => "kernelType"
  | rHome => "rHome"
  | rPath => "rPath"
  | rLibs => "rLibs"
  | pandocPath => "pandocPath"
  | pythonHome => "pythonHome"
  | pythonPath => "pythonPath"
  | venvPath => "venvPath"
  | stataHome => "stataHome"
  | stataEdition => "stataEdition"
  | arkPath => "arkPath"
  | kernelInterruptMode => "kernelInterruptMode"
  | workingDirectory => "workingDirectory"

/-- What a body without the key means. -/
def default : TextField → String
  | kernelType => "r"
  | _ => ""

/-- In the order `parseSessionOptions` reads them. -/
def all : List TextField :=
  [kernelType, rHome, rPath, rLibs, pandocPath, pythonHome, pythonPath, venvPath, stataHome,
    stataEdition, arkPath, kernelInterruptMode, workingDirectory]

/-- In the order `sessionToJson` reports them. -/
def reported : List TextField :=
  [kernelType, rHome, rPath, rLibs, pandocPath, pythonHome, pythonPath, venvPath, stataHome,
    stataEdition, arkPath, workingDirectory]

theorem mem_all (f : TextField) : f ∈ all := by
  cases f <;> decide

theorem key_injective {f g : TextField} (h : f.key = g.key) : f = g := by
  cases f <;> cases g <;> first | rfl | exact absurd h (by decide)

theorem mem_reported {f : TextField} : f ∈ reported ↔ f ≠ kernelInterruptMode := by
  cases f <;> decide

end TextField

@[ext] structure SessionOptions where
  text : TextField → String
  kernelArgv : List String := []
  kernelEnv : List (String × String) := []

/-! ## The supervisor's side -/

/-- `options.f = body.value("f", …)`, one field after the other. -/
def readTexts (body : Json) (fields : List TextField) : Except Json.Error (List (TextField × String)) :=
  fields.mapM fun f => return (f, ← body.valueString f.key f.default)

/-- The strings of the array `kernelArgv`. -/
def readArgv (body : Json) : List String :=
  match body.get? "kernelArgv" with
  | some (.array elements) => Json.strings elements
  | _ => []

/-- The members of the object `kernelEnv` that are strings. -/
def readEnv (body : Json) : List (String × String) :=
  match body.get? "kernelEnv" with
  | some (.object members) => members.filterMap fun e => e.2.string?.map (e.1, ·)
  | _ => []

def parseSessionOptions (body : Json) : Except Json.Error SessionOptions := do
  let texts ← readTexts body TextField.all
  return {
    text := fun f => (texts.lookup f).getD ""
    kernelArgv := readArgv body
    kernelEnv := readEnv body }

/-- `sessionToJson`'s `options` -/
def reportedOptions (s : SessionOptions) : Json :=
  .object (TextField.reported.map fun f => (f.key, .string (s.text f)))

/-! ## The client's side -/

/-- A property of a JavaScript object: absent, `undefined`, or there. -/
abbrev Property (α : Type) := Option (Option α)

structure EngineOptions where
  text : TextField → Property String := fun _ => none
  kernelArgv : Property (List String) := none
  kernelEnv : Property (List (String × String)) := none

namespace EngineOptions

/-- `{ ...current, ...changes }` -/
def spread (current changes : EngineOptions) : EngineOptions where
  text f := (changes.text f).or (current.text f)
  kernelArgv := changes.kernelArgv.or current.kernelArgv
  kernelEnv := changes.kernelEnv.or current.kernelEnv

/-- `options.f`; `none` is `undefined`. -/
def get (o : EngineOptions) (f : TextField) : Option String :=
  (o.text f).join

end EngineOptions

/-- `attachSession`: the reported options, without the empty strings. -/
def attachedOptions (options : Json) : EngineOptions where
  text f :=
    match (options.get? f.key).bind Json.string? with
    | some v => if v = "" then none else some (some v)
    | none => none
  kernelArgv :=
    match options.get? "kernelArgv" with
    | some (.array elements) => some (some (Json.strings elements))
    | _ => none
  kernelEnv :=
    match options.get? "kernelEnv" with
    | some (.object members) => some (some (members.filterMap fun e => e.2.string?.map (e.1, ·)))
    | _ => none

/-- `buildSessionOptionsBody`, and `JSON.stringify` of it: what is `undefined` is left out. -/
def buildSessionOptionsBody (o : EngineOptions) : Json :=
  .object ((TextField.all.filterMap fun f => (o.get f).map fun v => (f.key, .string v)) ++
    (o.kernelArgv.join.toList.map fun argv => ("kernelArgv", .array (argv.map .string))) ++
    o.kernelEnv.join.toList.map fun env => ("kernelEnv", .object (env.map fun e => (e.1, .string e.2))))

/-- The options that are paths, or lists of paths. -/
def isPath : TextField → Bool
  | .kernelType | .stataEdition | .kernelInterruptMode => false
  | _ => true

/-- `withAbsolutePaths`; an empty path stays empty. -/
def withAbsolutePaths (absolute : TextField → String → String) (o : EngineOptions) :
    EngineOptions :=
  { o with text := fun f => (o.text f).map (Option.map fun v =>
      if isPath f && v ≠ "" then absolute f v else v) }

/-- `NEEDS[kernelType]` -/
def needs (kernelType : String) : List TextField :=
  if kernelType = "r" then [.rHome]
  else if kernelType = "python" then [.pythonHome]
  else if kernelType = "stata" then [.stataHome]
  else if kernelType = "ark" then [.rHome, .arkPath]
  else []

/-- `withDiscoveredRuntime`: what the kernel needs and was not given is filled in, if found. -/
def withDiscoveredRuntime (discover : TextField → Option String) (o : EngineOptions) :
    EngineOptions :=
  { o with text := fun f =>
      if f ∈ needs ((o.get .kernelType).getD "r") ∧ (o.get f).getD "" = "" then
        match discover f with
        | some v => if v = "" then o.text f else some (some v)
        | none => o.text f
      else o.text f }

/-- What a client that has attached to a session started with `s` restarts it with
(`Session.restart(changes)`, and the supervisor's end of it). -/
def restartedOptions (absolute : TextField → String → String)
    (discover : TextField → Option String) (s : SessionOptions) (changes : EngineOptions) :
    Except Json.Error SessionOptions :=
  let current := attachedOptions (reportedOptions s)
  let merged := current.spread (withAbsolutePaths absolute changes)
  parseSessionOptions (buildSessionOptionsBody (withDiscoveredRuntime discover merged))

/-! ## What is promised -/

/-- `s`, but for the fields of `changes`; one set to `undefined` is back to its default. -/
def SessionOptions.change (s : SessionOptions) (changes : EngineOptions) : SessionOptions where
  text f :=
    match changes.text f with
    | none => s.text f
    | some v => v.getD f.default
  kernelArgv :=
    match changes.kernelArgv with
    | none => s.kernelArgv
    | some v => v.getD []
  kernelEnv :=
    match changes.kernelEnv with
    | none => s.kernelEnv
    | some v => v.getD []

/-- `s`, with the runtime its kernel needs and `s` has not set, if it is found. -/
def SessionOptions.fill (discover : TextField → Option String) (s : SessionOptions) :
    SessionOptions :=
  { s with text := fun f =>
      if f ∈ needs (s.text .kernelType) ∧ s.text f = "" then (discover f).getD "" else s.text f }

/-- The options of a session survive: what the supervisor reports of them is read back as they
are, and a client that attaches and restarts starts the kernel with them, but for its changes. -/
structure Survives (s : SessionOptions) : Prop where
  reported : parseSessionOptions (reportedOptions s) = .ok s
  restarted : ∀ absolute discover changes, restartedOptions absolute discover s changes =
    .ok ((s.change (withAbsolutePaths absolute changes)).fill discover)

/-! ## Reading what was written -/

/-- What a list of fields, each written if it has a value, holds under a field's key. -/
theorem lookup_fields (fields : List TextField) (g : TextField → Option Json) (f : TextField) :
    (fields.filterMap fun f => (g f).map fun v => (f.key, v)).lookup f.key =
      if f ∈ fields then g f else none := by
  induction fields with
  | nil => rfl
  | cons h fields ih =>
    by_cases hf : f = h
    · subst hf
      cases hg : g f with
      | none =>
        rw [List.filterMap_cons_none (by simp [hg]), ih]
        simp [hg]
      | some v =>
        rw [List.filterMap_cons_some (b := (f.key, v)) (by simp [hg])]
        simp [List.lookup_cons_self]
    · have hkey : (f.key == h.key) = false := by
        simpa using fun heq => hf (TextField.key_injective heq)
      cases hg : g h with
      | none =>
        rw [List.filterMap_cons_none (by simp [hg]), ih]
        simp [hf]
      | some v =>
        rw [List.filterMap_cons_some (b := (h.key, v)) (by simp [hg])]
        simp [List.lookup_cons, hkey, hf, ih]

theorem readTexts_ok {body : Json} {g : TextField → String} (fields : List TextField)
    (h : ∀ f, body.valueString f.key f.default = .ok (g f)) :
    readTexts body fields = .ok (fields.map fun f => (f, g f)) := by
  unfold readTexts
  induction fields with
  | nil => rfl
  | cons f fields ih =>
    rw [List.mapM_cons, ih, h f]
    rfl

/-- **Parsing**, field by field. -/
theorem parse_of_texts {body : Json} {g : TextField → String}
    (h : ∀ f, body.valueString f.key f.default = .ok (g f)) :
    parseSessionOptions body =
      .ok { text := g, kernelArgv := readArgv body, kernelEnv := readEnv body } := by
  unfold parseSessionOptions
  rw [readTexts_ok TextField.all h]
  have htext : (fun f => ((TextField.all.map fun f => (f, g f)).lookup f).getD "") = g := by
    funext f
    cases f <;> rfl
  show Except.ok _ = _
  rw [htext]

theorem valueString_of_get {body : Json} {f : TextField} {v : Option String} (hbody : body.isObject)
    (h : body.get? f.key = v.map .string) :
    body.valueString f.key f.default = .ok (v.getD f.default) := by
  cases body with
  | object members =>
    change members.lookup f.key = _ at h
    cases v with
    | none => exact Json.value_missing h
    | some v => exact Json.value_found h rfl
  | _ => cases hbody

/-! ### What the supervisor reports -/

theorem get_reported (s : SessionOptions) (f : TextField) :
    (reportedOptions s).get? f.key =
      if f = .kernelInterruptMode then none else some (.string (s.text f)) := by
  have h := lookup_fields TextField.reported (fun f => some (.string (s.text f))) f
  rw [show (TextField.reported.filterMap fun g => (some (Json.string (s.text g))).map
    fun v => (g.key, v)) = TextField.reported.map fun g => (g.key, .string (s.text g)) from
      List.filterMap_eq_map' .. ▸ rfl] at h
  show (TextField.reported.map fun g => (g.key, Json.string (s.text g))).lookup f.key = _
  rw [h]
  by_cases hf : f = .kernelInterruptMode <;> simp [TextField.mem_reported, hf]

/-- The command of a Jupyter kernel, and its environment, are not reported. -/
theorem get_reported_command (s : SessionOptions) :
    (reportedOptions s).get? "kernelArgv" = none ∧ (reportedOptions s).get? "kernelEnv" = none :=
  ⟨rfl, rfl⟩

theorem parse_reported (s : SessionOptions) :
    parseSessionOptions (reportedOptions s) =
      .ok { text := fun f => if f = .kernelInterruptMode then "" else s.text f } := by
  have hread : ∀ f, (reportedOptions s).valueString f.key f.default =
      .ok (if f = .kernelInterruptMode then "" else s.text f) := fun f => by
    have hget := get_reported s f
    by_cases hf : f = .kernelInterruptMode
    · rw [if_pos hf] at hget ⊢
      rw [@valueString_of_get _ f none rfl hget, hf]
      rfl
    · rw [if_neg hf] at hget ⊢
      exact @valueString_of_get _ f (some (s.text f)) rfl hget
  rw [parse_of_texts hread]
  rfl

theorem reported_iff (s : SessionOptions) :
    parseSessionOptions (reportedOptions s) = .ok s ↔
      s.kernelArgv = [] ∧ s.kernelEnv = [] ∧ s.text .kernelInterruptMode = "" := by
  rw [parse_reported]
  constructor
  · intro h
    have h := Except.ok.inj h
    refine ⟨?_, ?_, ?_⟩
    · rw [← h]
    · rw [← h]
    · rw [← h]
      rfl
  · rintro ⟨hargv, henv, hmode⟩
    have htext : (fun f => if f = .kernelInterruptMode then "" else s.text f) = s.text := by
      funext f
      split
      · next hf => rw [hf, hmode]
      · rfl
    rw [htext, ← hargv, ← henv]

/-! ### What the client sends -/

section Body

variable (o : EngineOptions)

theorem lookup_body (key : String) :
    (buildSessionOptionsBody o).get? key =
      (((TextField.all.filterMap fun f => (o.get f).map fun v => (f.key, Json.string v)).lookup key).or
        ((o.kernelArgv.join.toList.map fun argv => ("kernelArgv", Json.array (argv.map .string))).lookup
          key)).or
        ((o.kernelEnv.join.toList.map fun env =>
          ("kernelEnv", Json.object (env.map fun e => (e.1, .string e.2)))).lookup key) := by
  simp only [buildSessionOptionsBody, Json.get?, List.lookup_append]

/-- A command or an environment has a key that is none of the strings'. -/
theorem lookup_command {α : Type} {key : String} (value : α → Json) (v : Option α) {other : String}
    (h : (other == key) = false) :
    (v.toList.map fun a => (key, value a)).lookup other = none := by
  cases v with
  | none => rfl
  | some a => simp [List.lookup_cons, h]

theorem lookup_command_self {α : Type} (key : String) (value : α → Json) (v : Option α) :
    (v.toList.map fun a => (key, value a)).lookup key = v.map value := by
  cases v with
  | none => rfl
  | some a => simp

theorem lookup_texts {key : String} (h : ∀ f : TextField, (key == f.key) = false)
    (fields : List TextField) :
    (fields.filterMap fun f => (o.get f).map fun v => (f.key, Json.string v)).lookup key = none := by
  induction fields with
  | nil => rfl
  | cons f fields ih =>
    cases hf : o.get f with
    | none => rw [List.filterMap_cons_none (by simp [hf]), ih]
    | some v =>
      rw [List.filterMap_cons_some (b := (f.key, .string v)) (by simp [hf]), List.lookup_cons, h f]
      exact ih

theorem get_body (f : TextField) :
    (buildSessionOptionsBody o).get? f.key = (o.get f).map .string := by
  have htexts := lookup_fields TextField.all (fun f => (o.get f).map .string) f
  simp only [Option.map_map, Function.comp_def, TextField.mem_all, if_true] at htexts
  have hargv : (f.key == "kernelArgv") = false := by cases f <;> decide
  have henv : (f.key == "kernelEnv") = false := by cases f <;> decide
  rw [lookup_body, htexts, lookup_command _ _ hargv, lookup_command _ _ henv]
  simp only [Option.or_none]

theorem get_body_argv :
    (buildSessionOptionsBody o).get? "kernelArgv" =
      o.kernelArgv.join.map fun argv => .array (argv.map .string) := by
  have hkey : ∀ f : TextField, ("kernelArgv" == f.key) = false := fun f => by cases f <;> decide
  rw [lookup_body, lookup_texts o hkey, lookup_command_self, lookup_command _ _ (by decide)]
  simp only [Option.none_or, Option.or_none]

theorem get_body_env :
    (buildSessionOptionsBody o).get? "kernelEnv" =
      o.kernelEnv.join.map fun env => .object (env.map fun e => (e.1, .string e.2)) := by
  have hkey : ∀ f : TextField, ("kernelEnv" == f.key) = false := fun f => by cases f <;> decide
  rw [lookup_body, lookup_texts o hkey, lookup_command _ _ (by decide), lookup_command_self]
  simp only [Option.none_or]

theorem strings_string (argv : List String) : Json.strings (argv.map .string) = argv := by
  rw [Json.strings, List.filterMap_map]
  exact List.filterMap_some

theorem readArgv_body : readArgv (buildSessionOptionsBody o) = o.kernelArgv.join.getD [] := by
  unfold readArgv
  rw [get_body_argv]
  cases o.kernelArgv.join with
  | none => rfl
  | some argv => exact strings_string argv

theorem readEnv_body : readEnv (buildSessionOptionsBody o) = o.kernelEnv.join.getD [] := by
  unfold readEnv
  rw [get_body_env]
  cases o.kernelEnv.join with
  | none => rfl
  | some env =>
    show (env.map fun e => (e.1, Json.string e.2)).filterMap _ = env
    rw [List.filterMap_map]
    exact List.filterMap_some

/-- **The body a client sends is read back as its options**, what is unset as its default. -/
theorem parse_body :
    parseSessionOptions (buildSessionOptionsBody o) = .ok {
      text := fun f => (o.get f).getD f.default
      kernelArgv := o.kernelArgv.join.getD []
      kernelEnv := o.kernelEnv.join.getD [] } := by
  rw [parse_of_texts fun f => valueString_of_get rfl (get_body o f), readArgv_body, readEnv_body]

end Body

/-! ### What a reconnecting client has -/

theorem attached_text (s : SessionOptions) (f : TextField) :
    (attachedOptions (reportedOptions s)).text f =
      if f = .kernelInterruptMode ∨ s.text f = "" then none else some (some (s.text f)) := by
  show (match ((reportedOptions s).get? f.key).bind Json.string? with
    | some v => if v = "" then none else some (some v)
    | none => none) = _
  rw [get_reported]
  by_cases hf : f = .kernelInterruptMode
  · simp [hf]
  · simp [hf, Json.string?]

theorem kernelType_not_needed (kernelType : String) : .kernelType ∉ needs kernelType := by
  unfold needs
  repeat' split
  all_goals decide

section Restart

variable {s : SessionOptions} (changes : EngineOptions)

/-- What the merged options have under a field, for a session whose options can be reported. -/
theorem get_merged (hmode : s.text .kernelInterruptMode = "") (htype : s.text .kernelType ≠ "")
    (f : TextField) :
    (((attachedOptions (reportedOptions s)).spread changes).get f).getD f.default =
      (s.change changes).text f := by
  show ((((changes.text f).or _).join).getD f.default) = (match changes.text f with | none => _ | some v => _)
  cases changes.text f with
  | some v => rfl
  | none =>
    rw [Option.none_or, attached_text]
    split
    · next hempty =>
      -- an empty string is dropped, and read back as the default
      have hf : f ≠ .kernelType := by
        rintro rfl
        exact htype (hempty.resolve_left (by decide))
      have htext : s.text f = "" := by
        rcases hempty with rfl | h
        · exact hmode
        · exact h
      rw [htext]
      cases f <;> first | rfl | exact absurd rfl hf
    · rfl

/-- Discovery fills in the same fields on either side. -/
theorem get_discovered (hmode : s.text .kernelInterruptMode = "") (htype : s.text .kernelType ≠ "")
    (discover : TextField → Option String) (f : TextField) :
    ((withDiscoveredRuntime discover
      ((attachedOptions (reportedOptions s)).spread changes)).get f).getD f.default =
      ((s.change changes).fill discover).text f := by
  have hget := get_merged changes hmode htype
  generalize (attachedOptions (reportedOptions s)).spread changes = merged at hget
  have hkernel : (merged.get .kernelType).getD "r" = (s.change changes).text .kernelType :=
    hget .kernelType
  show (Option.join (if f ∈ needs ((merged.get .kernelType).getD "r") ∧ (merged.get f).getD "" = ""
    then _ else _)).getD f.default =
    (if f ∈ needs ((s.change changes).text .kernelType) ∧ (s.change changes).text f = "" then _ else _)
  rw [hkernel, ← hget f]
  by_cases hneeds : f ∈ needs ((s.change changes).text .kernelType)
  · have hdefault : f.default = "" := by
      have hf : f ≠ .kernelType := fun h => kernelType_not_needed _ (h ▸ hneeds)
      cases f <;> first | rfl | exact absurd rfl hf
    rw [hdefault]
    by_cases hunset : (merged.get f).getD "" = ""
    · rw [if_pos ⟨hneeds, hunset⟩, if_pos ⟨hneeds, hunset⟩]
      cases discover f with
      | none => exact hunset
      | some v =>
        by_cases hv : v = ""
        · simp only [hv, if_true]
          exact hunset
        · simp [hv]
    · rw [if_neg fun h => hunset h.2, if_neg fun h => hunset h.2]
      rfl
  · rw [if_neg fun h => hneeds h.1, if_neg fun h => hneeds h.1]
    rfl

theorem restarted (hargv : s.kernelArgv = []) (henv : s.kernelEnv = [])
    (hmode : s.text .kernelInterruptMode = "") (htype : s.text .kernelType ≠ "")
    (absolute : TextField → String → String) (discover : TextField → Option String) :
    restartedOptions absolute discover s changes =
      .ok ((s.change (withAbsolutePaths absolute changes)).fill discover) := by
  have hcommand := get_reported_command s
  show parseSessionOptions (buildSessionOptionsBody _) = _
  rw [parse_body]
  congr 1
  generalize hchanged : withAbsolutePaths absolute changes = changed
  refine SessionOptions.ext (funext (get_discovered changed hmode htype discover)) ?_ ?_
  · show Option.getD (Option.join (changed.kernelArgv.or
      (attachedOptions (reportedOptions s)).kernelArgv)) [] =
        (match changed.kernelArgv with | none => s.kernelArgv | some v => v.getD [])
    simp only [attachedOptions, hcommand.1, Option.or_none, hargv]
    cases changed.kernelArgv <;> rfl
  · show Option.getD (Option.join (changed.kernelEnv.or
      (attachedOptions (reportedOptions s)).kernelEnv)) [] =
        (match changed.kernelEnv with | none => s.kernelEnv | some v => v.getD [])
    simp only [attachedOptions, hcommand.2, Option.or_none, henv]
    cases changed.kernelEnv <;> rfl

end Restart

/-- An empty kernel type does not come back: the client drops it, and no kernel type is R's. -/
theorem kernelType_lost {s : SessionOptions} (h : s.text .kernelType = "") : ¬ Survives s := by
  intro hs
  have hrestart := hs.restarted (fun _ v => v) (fun _ => none) {}
  have hright : ((s.change (withAbsolutePaths (fun _ v => v) {})).fill fun _ => none).text
      .kernelType = "" := by
    simp [SessionOptions.fill, SessionOptions.change, withAbsolutePaths, h]
  have hget : (attachedOptions (reportedOptions s)).text .kernelType = none := by
    rw [attached_text, if_pos (Or.inr h)]
  have hleft : (withDiscoveredRuntime (fun _ => none)
      ((attachedOptions (reportedOptions s)).spread (withAbsolutePaths (fun _ v => v) {}))).get
        .kernelType = none := by
    simp [withDiscoveredRuntime, EngineOptions.get, EngineOptions.spread, withAbsolutePaths, hget]
  have heq := congrArg (SessionOptions.text · .kernelType)
    (Except.ok.inj ((parse_body _).symm.trans hrestart))
  have hr : "r" = "" := by
    calc "r" = Option.getD none "r" := rfl
      _ = _ := congrArg (Option.getD · "r") hleft.symm
      _ = _ := heq
      _ = "" := hright
  exact absurd hr (by decide)

/-- **When a session's options survive reconnecting**: exactly when it has no kernel command,
environment or interrupt mode of its own, and names its kernel type. -/
theorem options_survive_iff (s : SessionOptions) :
    Survives s ↔ s.kernelArgv = [] ∧ s.kernelEnv = [] ∧ s.text .kernelInterruptMode = "" ∧
      s.text .kernelType ≠ "" := by
  constructor
  · intro h
    obtain ⟨hargv, henv, hmode⟩ := (reported_iff s).1 h.reported
    exact ⟨hargv, henv, hmode, fun htype => kernelType_lost htype h⟩
  · rintro ⟨hargv, henv, hmode, htype⟩
    exact {
      reported := (reported_iff s).2 ⟨hargv, henv, hmode⟩
      restarted := fun absolute discover changes =>
        restarted changes hargv henv hmode htype absolute discover }

/-- A Jupyter session, whose kernel is the command it was given. -/
def jupyterOptions : SessionOptions where
  text f := if f = .kernelType then "jupyter" else ""
  kernelArgv := ["julia", "kernel.jl", "\x7bconnection_file\x7d"]

/-- **Its command is lost**: what is reported of the session reads as one without a command,
and a client that attached to it restarts it without one. -/
theorem command_lost :
    ¬ Survives jupyterOptions ∧
      (restartedOptions (fun _ v => v) (fun _ => none) jupyterOptions {}).toOption.map
        SessionOptions.kernelArgv = some [] := by
  refine ⟨fun h => ?_, by decide⟩
  have hargv := ((reported_iff jupyterOptions).1 h.reported).1
  exact absurd hargv (by decide)

end Jovian.Supervisor
