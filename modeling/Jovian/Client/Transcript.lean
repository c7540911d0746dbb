import Jovian.Lib.JsonText

/-!
# Transcript — a console's cells, and what the kernel's messages make of them

A transcript is plain data: `applyMessage` applies one message, `applyMessages` several, those of a
run of stream messages on one copy of the cell's outputs (`applyStreams`).
-/

namespace Jovian.Transcript

/-! ## Texts -/

/-- The code units of a string. -/
abbrev Text := List UInt16

def units (text : List Char) : Text :=
  text.flatMap fun c =>
    if c.toNat < 0x10000 then [UInt16.ofNat c.toNat]
    else [UInt16.ofNat (0xD800 + (c.toNat - 0x10000) / 0x400),
          UInt16.ofNat (0xDC00 + (c.toNat - 0x10000) % 0x400)]

def newline : UInt16 := 10

def MAX_OUTPUT_CHARS : Nat := 200000

/-- The last `MAX_OUTPUT_CHARS` of `text`, starting at a line boundary when one is close. -/
def capText (text : Text) : Text × Bool :=
  if text.length ≤ MAX_OUTPUT_CHARS then (text, false)
  else
    let kept := text.drop (text.length - MAX_OUTPUT_CHARS)
    let line := kept.findIdx (· = newline)
    if line < kept.length ∧ line < 2000 then (kept.drop (line + 1), true) else (kept, true)

/-! ## The data of a display -/

mutual

/-- `String(v)` -/
def string : Json → List Char
  | .discarded => "undefined".toList
  | .null => "null".toList
  | .bool b => (if b then "true" else "false").toList
  | .number spelling => spelling.toList
  | .string s => s.toList
  | .array elements => joined [','] elements
  | .object _ => "[object Object]".toList

/-- `elements.join(separator)` -/
def joined (separator : List Char) : List Json → List Char
  | [] => []
  | v :: rest =>
    (match v with
      | .null | .discarded => []
      | v => string v) ++
    match rest with
    | [] => []
    | next :: more => separator ++ joined separator (next :: more)

end

def truthy : Json → Bool
  | .discarded | .null => false
  | .bool b => b
  | .number spelling =>
    (spelling.toList.takeWhile fun c => c ≠ 'e' ∧ c ≠ 'E').any fun c => '1' ≤ c ∧ c ≤ '9'
  | .string s => s ≠ ""
  | .array _ | .object _ => true

inductive MimeOutput where
  | image (src : Text)
  | text (text : Text)

/-- What to show of a mime bundle: an image if there is one, else text. -/
def formatMimeData (data : Option Json) : Option MimeOutput :=
  data.bind fun data =>
    if !truthy data then none
    else
      let png := (data.get? "image/png").filter truthy
      match png, data.get? "text/plain" with
      | some png, _ =>
        let png := string png
        some (.image (units (if "data:".toList.isPrefixOf png then png
          else "data:image/png;base64,".toList ++ png)))
      | none, some (.array elements) => some (.text (units (joined ['\n'] elements)))
      | none, some v => some (.text (units (string v)))
      | none, none => some (.text (units (Json.dump data)))

/-! ## Transcripts -/

inductive OutputClass where
  | stdout | stderr | result | error | system
deriving DecidableEq

/-- A new output has no `id` yet. An absent flag is not set. -/
inductive NewOutput where
  | text (cls : OutputClass) (text : Text) (displayId : Option String) (truncated : Bool)
  | image (src : Text) (displayId : Option String)
  | input (prompt : Text) (password : Bool) (answered : Bool) (answeredValue : Option Text)
deriving DecidableEq

structure Output where
  id : Nat
  shown : NewOutput
deriving DecidableEq

structure Cell where
  key : String
  inNum : Nat
  code : Text
  time : Nat
  outputs : List Output
  /-- The old outputs are dropped when the next one arrives. -/
  clearOnNext : Bool := false
deriving DecidableEq

end Jovian.Transcript

namespace Jovian

structure Transcript where
  cells : List Transcript.Cell
  /-- The cell output messages currently attach to. -/
  currentKey : Option String
  nextOutputId : Nat
deriving DecidableEq

end Jovian

namespace Jovian.Transcript

def NewOutput.displayId? : NewOutput → Option String
  | .text _ _ displayId _ => displayId
  | .image _ displayId => displayId
  | .input .. => none

/-- What `applyMessage` reads of a message's content. -/
structure Content where
  name : Option String := none
  text : Option Text := none
  data : Option Json := none
  /-- `transient?.display_id` -/
  displayId : Option String := none
  wait : Bool := false
  ename : Option Text := none
  evalue : Option Text := none
  /-- `none` where it is no array. -/
  traceback : Option (List Text) := none
  prompt : Option Text := none
  password : Bool := false

structure WireMessage where
  msgType : String
  content : Content := {}

/-- Whether a key is one of the transcript's cells': `mapCell` changes nothing where it is not. -/
def hasCell (t : Transcript) (key : Option String) : Bool := t.cells.any fun c => some c.key = key

def mapCell (t : Transcript) (key : Option String) (fn : Cell → Cell) : Transcript :=
  if t.hasCell key then
    { t with cells := t.cells.map fun c => if some c.key = key then fn c else c }
  else t

def pushOutput (t : Transcript) (output : NewOutput) : Transcript :=
  if t.hasCell t.currentKey then
    { t.mapCell t.currentKey fun c => { c with
        clearOnNext := false
        outputs := (if c.clearOnNext then [] else c.outputs) ++ [⟨t.nextOutputId, output⟩] } with
      nextOutputId := t.nextOutputId + 1 }
  else t

def withDisplay (mime : MimeOutput) (displayId : Option String) (cls : OutputClass) : NewOutput :=
  match mime with
  | .image src => .image src displayId
  | .text text => .text cls text displayId false

/-- The display already published under the id, in its new form. -/
def redisplay (mime : MimeOutput) (displayId : String) (o : Output) : Output :=
  if o.shown.displayId? = some displayId then
    { o with shown := match mime, o.shown with
      | .image src, _ => .image src displayId
      | .text text, .text cls .. => .text cls text displayId false
      | .text text, _ => .text .result text displayId false }
  else o

def hasDisplay (displayId : String) (cell : Cell) : Bool :=
  cell.outputs.any fun o => o.shown.displayId? = some displayId

def streamClass (content : Content) : OutputClass :=
  if content.name = some "stderr" then .stderr else .stdout

/-- Whether a stream's chunks are added to the output. -/
def isBlock (cls : OutputClass) (o : Output) : Bool :=
  match o.shown with
  | .text cls' _ displayId _ => cls' = cls && (displayId = none || displayId = some "")
  | _ => false

def Output.text (o : Output) : Text :=
  match o.shown with
  | .text _ text _ _ => text
  | _ => []

def Output.truncated (o : Output) : Bool :=
  match o.shown with
  | .text _ _ _ truncated => truncated
  | _ => false

/-- `{ ...o, text, truncated }` -/
def Output.withText (o : Output) (capped : Text × Bool) : Output :=
  match o.shown with
  | .text cls _ displayId truncated =>
    { o with shown := .text cls capped.1 displayId (truncated || capped.2) }
  | _ => o

def applyStream (t : Transcript) (content : Content) : Transcript :=
  let cls := streamClass content
  let text := content.text.getD []
  let cell := t.cells.find? fun c => some c.key = t.currentKey
  match (cell.filter fun c => !c.clearOnNext).bind fun c => c.outputs.getLast?.filter (isBlock cls) with
  | some last =>
    t.mapCell t.currentKey fun c =>
      { c with outputs := c.outputs.dropLast ++ [last.withText (capText (last.text ++ text))] }
  | none =>
    let first := capText text
    t.pushOutput (.text cls first.1 none first.2)

def applyMessage (t : Transcript) (msg : WireMessage) : Transcript :=
  let content := msg.content
  if msg.msgType = "stream" then applyStream t content
  else if msg.msgType = "execute_result" ∨ msg.msgType = "display_data" then
    match formatMimeData content.data with
    | some mime => t.pushOutput (withDisplay mime content.displayId .result)
    | none => t
  else if msg.msgType = "update_display_data" then
    match formatMimeData content.data with
    | none => t
    | some mime =>
      let displayId := content.displayId.filter (· ≠ "")
      match displayId.filter fun displayId => t.cells.any (hasDisplay displayId) with
      | some displayId =>
        { t with cells := t.cells.map fun cell =>
            if hasDisplay displayId cell then
              { cell with outputs := cell.outputs.map (redisplay mime displayId) }
            else cell }
      | none => t.pushOutput (withDisplay mime content.displayId .result)
  else if msg.msgType = "clear_output" then
    t.mapCell t.currentKey fun c =>
      if content.wait then { c with clearOnNext := true } else { c with outputs := [] }
  else if msg.msgType = "error" then
    let traceback := ((content.traceback.getD []).intersperse [newline]).flatten
    t.pushOutput (.text .error
      (content.ename.getD (units "Error".toList) ++ units ": ".toList ++ content.evalue.getD [] ++
        (if traceback = [] then [] else newline :: traceback)) none false)
  else if msg.msgType = "input_request" then
    t.pushOutput (.input ((content.prompt.filter (· ≠ [])).getD (units "Input requested:".toList))
      content.password false none)
  else t

/-! ## Several messages at once -/

/-- The loop over a run of stream messages: the block at `openAt` is being appended to, and its text
is capped when it is done. -/
structure Streams where
  outputs : List Output
  nextOutputId : Nat
  openAt : Option Nat := none
  text : Text := []

def Streams.close (s : Streams) : Streams :=
  match s.openAt with
  | none => s
  | some i =>
    { s with openAt := none, outputs := s.outputs.modify i (·.withText (capText s.text)) }

def Streams.add (s : Streams) (content : Content) : Streams :=
  let cls := streamClass content
  let chunk := content.text.getD []
  match s.outputs.getLast?.filter (isBlock cls) with
  | some last =>
    if s.openAt = none then
      { s with openAt := some (s.outputs.length - 1), text := last.text ++ chunk }
    else { s with text := s.text ++ chunk }
  | none =>
    let s := s.close
    { outputs := s.outputs ++ [⟨s.nextOutputId, .text cls [] none false⟩]
      nextOutputId := s.nextOutputId + 1
      openAt := some s.outputs.length
      text := chunk }

/-- `applyMessage` for stream messages, in one pass. -/
def applyStreams (t : Transcript) (run : List WireMessage) : Transcript :=
  match t.cells.find? fun c => some c.key = t.currentKey with
  | none => t
  | some cell =>
    let start : Streams :=
      { outputs := if cell.clearOnNext then [] else cell.outputs, nextOutputId := t.nextOutputId }
    let s := (run.foldl (fun s msg => s.add msg.content) start).close
    { t.mapCell (some cell.key) fun c => { c with clearOnNext := false, outputs := s.outputs } with
      nextOutputId := s.nextOutputId }

def isStream (msg : WireMessage) : Bool := msg.msgType = "stream"

def applyMessages (t : Transcript) : List WireMessage → Transcript
  | [] => t
  | msg :: rest =>
    if isStream msg then
      applyMessages (t.applyStreams (msg :: rest.takeWhile isStream)) (rest.dropWhile isStream)
    else applyMessages (t.applyMessage msg) rest
termination_by msgs => msgs.length
decreasing_by
  · exact Nat.lt_succ_of_le (List.length_dropWhile_le isStream rest)
  · exact Nat.lt_succ_self _

end Jovian.Transcript
