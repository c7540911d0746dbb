import Jovian.Kernel.KernelCore

/-!
# Jovian — one reply to an `execute_request` (`KernelCore::executeRequest`)

Where an interpreter throws, the handler calls the reply callback itself: an interpreter that has
not called it yet still gets its request answered. One that has called it gets it answered again;
only `endExecution` is guarded against that.

How a call of the callback fares is its `Turn`, told from the reply, the requests that are set
aside and the world: it meets something that throws before its reply is out, or behind it, or
nothing.

* **`one_reply_iff`** — a request gets one reply and one idle exactly when one call of the
  callback is `done` and no other gets its reply out (`Proper`).
-/

namespace Jovian.Kernel

open Throws

/-! ## What is promised -/

inductive Mark where
  | status (content parent : Json)
  | reply (parent : Json)
  | stored
  | beginExecution
  | endExecution

def Effect.mark? : Effect → Option Mark
  | .publish msgType parent content _ =>
    if msgType = "status" then some (.status content parent) else none
  | .reply msgType parent _ _ => if msgType = "execute_reply" then some (.reply parent) else none
  | .aborted _ _ => none
  | .beginExecution => some .beginExecution
  | .endExecution => some .endExecution
  | .storeInputs _ _ _ => some .stored
  | .stop => none

def State.marks (s : State) : List Mark :=
  s.trace.filterMap Effect.mark?

/-- An `execute_request` from `beginExecution` on, and its callback if it was kept. `dispatch`
catches what it throws. -/
def serve (w : World) (request : ExecuteRequest) : KernelM Unit := do
  let _ ← attempt (execute w request)
  resume w

inductive Turn where
  /-- It threw before its reply was out; `ended` where it had ended the execution. -/
  | unsent (ended : Bool) (e : Exception)
  /-- It threw behind its reply. -/
  | unstored (e : Exception)
  | done

def Turn.thrown : Turn → Option Exception
  | .unsent _ e | .unstored e => some e
  | .done => none

/-- Whether the execution has ended after it. -/
def Turn.ends : Turn → Bool
  | .unsent ends _ => ends
  | _ => true

def Turn.IsUnsent : Turn → Prop
  | .unsent _ _ => True
  | _ => False

/-- Whether the callback aborts what waits. -/
def aborts (request : ExecuteRequest) (status : String) : Bool :=
  !request.silent && status = "error" && request.stopOnError

/-- What the callback reads in a reply: its count and its status. -/
def readReply (reply : Json) : Except Json.Error (Json × String) := do
  let executionCount ← valueNumber reply "execution_count" (.number "1")
  let status ← reply.valueString "status" "error"
  return (executionCount, status)

/-- The end of a call: the reply is sent, and the input stored. -/
def sending (w : World) (request : ExecuteRequest) (reply executionCount : Json) : Turn :=
  match w.sends reply with
  | some what => .unsent true (.runtime what)
  | none =>
    match (if !request.silent && request.storeHistory then w.stores executionCount request.code
      else none) with
    | some what => .unstored (.runtime what)
    | none => .done

/-- What a call does with a reply that it has read, with the requests that are set aside then. -/
def answered (w : World) (request : ExecuteRequest) (reply executionCount : Json) (status : String)
    (deferred : List Message) : Turn :=
  match (if aborts request status then deferred.findSome? (abortError w) else none) with
  | some e => .unsent true e
  | none => sending w request reply executionCount

/-- A call of `reply_callback`. -/
def turn (w : World) (request : ExecuteRequest) (reply : Json) (deferred : List Message) : Turn :=
  match readReply reply with
  | .error e => .unsent true (.json e)
  | .ok (executionCount, status) => answered w request reply executionCount status deferred

/-- A call of what the interpreter is given. -/
def turnImpl (w : World) (request : ExecuteRequest) (executionCount : Nat) (reply : Json)
    (deferred : List Message) : Turn :=
  match assign reply "execution_count" (.number (toString executionCount)) with
  | .error e => .unsent false (.json e)
  | .ok reply => turn w request reply deferred

/-- What is still set aside then: a request that cannot be aborted is gone, those after it are
not. -/
def unaborted (w : World) (request : ExecuteRequest) (status : String) (deferred : List Message) :
    List Message :=
  if aborts request status then (deferred.dropWhile fun m => (abortError w m).isNone).drop 1
  else deferred

def leftBehind (w : World) (request : ExecuteRequest) (reply : Json) (deferred : List Message) :
    List Message :=
  match readReply reply with
  | .error _ => deferred
  | .ok (_, status) => unaborted w request status deferred

def leftBehindImpl (w : World) (request : ExecuteRequest) (executionCount : Nat) (reply : Json)
    (deferred : List Message) : List Message :=
  match assign reply "execution_count" (.number (toString executionCount)) with
  | .error _ => deferred
  | .ok reply => leftBehind w request reply deferred

/-- The handler's own call, after the interpreter threw. -/
def caught (w : World) (request : ExecuteRequest) (what : String) (deferred : List Message) : Turn :=
  turn w request (createErrorReply "InternalError" what) deferred

/-- One of two calls is done, and the other gets no reply out. -/
def OneDone (t t' : Turn) : Prop :=
  (t = .done ∧ t'.IsUnsent) ∨ (t.IsUnsent ∧ t' = .done)

/-- The count an execution has. -/
def countOf (request : ExecuteRequest) (s : State) : Nat :=
  if request.silent then s.executionCount else s.executionCount + 1

/-- One call of the callback is done and no other gets its reply out: the interpreter's own call,
where it makes one, and the handler's, where the interpreter throws. -/
def Proper (w : World) (request : ExecuteRequest) (s : State) : Prop :=
  match w.conduct request (countOf request s) with
  | .never before what =>
    ∃ e, what = some e ∧ caught w request e (s.deferredShell ++ before.deferred) = .done
  | .calls before reply rest =>
    let deferred := s.deferredShell ++ before.deferred
    let t := turnImpl w request (countOf request s) reply deferred
    match (rest t.thrown).2 with
    | none => t = .done
    | some e => OneDone t (caught w request e
        (leftBehindImpl w request (countOf request s) reply deferred ++ (rest t.thrown).1.deferred))
  | .keeps before what later reply =>
    let deferred := s.deferredShell ++ before.deferred
    match what with
    | none => turnImpl w request (countOf request s) reply (deferred ++ later.deferred) = .done
    | some e => OneDone (caught w request e deferred)
        (turnImpl w request (countOf request s) reply
          (leftBehind w request (createErrorReply "InternalError" e) deferred ++ later.deferred))

/-! ## What leaves the books alone -/

/-- What the promise is about, and what a call of the callback goes by. -/
def State.books (s : State) : List Mark × Bool × Option Kept × List Message :=
  (s.marks, s.executionEnded, s.kept, s.deferredShell)

theorem marks_append (s : State) (e : Effect) :
    State.marks { s with trace := s.trace ++ [e] } = s.marks ++ e.mark?.toList := by
  unfold State.marks
  rw [List.filterMap_append]
  cases h : e.mark? <;> simp [h]

section Tame

variable {P : Exception → Prop}

theorem tame_emit {e : Effect} (he : e.mark? = none) : Tame State.books P (emit e) := by
  refine .modified fun s => ?_
  show (State.marks { s with trace := s.trace ++ [e] }, _, _, _) = _
  rw [marks_append, he]
  simp [State.books]

theorem tame_lift {α : Type} (x : Except Json.Error α) (hP : ∀ e, P (.json e)) :
    Tame State.books P (lift x) := by
  cases x with
  | ok a => exact .pure a
  | error e => exact .throw (hP e)

theorem tame_throws (what : Option String) (hP : ∀ what, P (.runtime what)) :
    Tame State.books P (throws what) := by
  cases what with
  | none => exact .pure ()
  | some what => exact .throw (hP what)

theorem tame_abortRequest (w : World) (msg : Message) :
    Tame State.books (· ≠ .undefined) (abortRequest w msg) := by
  refine .bind (tame_lift _ (by simp)) fun msgType => ?_
  cases replyType msgType with
  | none => exact .throw (by simp)
  | some msgType => exact .bind (tame_throws _ (by simp)) fun _ => tame_emit rfl

end Tame

/-! ## A call of the callback, step by step -/

variable {w : World} {request : ExecuteRequest}

theorem thrown_abortRequest (msg : Message) (s : State) :
    thrown (abortRequest w msg) s = abortError w msg := by
  unfold abortRequest abortError
  cases hheader : msg.header.valueString "msg_type" "" with
  | error e => rfl
  | ok msgType =>
    simp only [lift, pure_bind]
    cases hreply : replyType msgType with
    | none => rfl
    | some reply => cases w.sends abortedContent <;> rfl

/-- What was set aside is aborted up to the first request that cannot be. -/
theorem abortDeferred_run (deferred : List Message) (s : State) (h : s.deferredShell = deferred) :
    ∃ s', abortDeferred w deferred s = ending (deferred.findSome? (abortError w)) s' ∧
      s'.books = (s.marks, s.executionEnded, s.kept,
        (deferred.dropWhile fun m => (abortError w m).isNone).drop 1) := by
  induction deferred generalizing s with
  | nil => exact ⟨s, rfl, by rw [State.books, h]; rfl⟩
  | cons m rest ih =>
    -- the message is off the queue before it is answered
    let s₁ : State := { s with deferredShell := rest }
    have hkeeps : (final (abortRequest w m) s₁).books = s₁.books := (tame_abortRequest w m).keeps s₁
    have hrun := run_eq (abortRequest w m) s₁
    rw [thrown_abortRequest] at hrun
    obtain ⟨hmarks, hended, hkept, hdeferred⟩ : _ ∧ _ ∧ _ ∧ _ := by
      simpa only [State.books, Prod.mk.injEq] using hkeeps
    have hstep : abortDeferred w (m :: rest) s = (do abortRequest w m; abortDeferred w rest) s₁ := rfl
    cases herror : abortError w m with
    | some e =>
      rw [herror] at hrun
      refine ⟨final (abortRequest w m) s₁, ?_, ?_⟩
      · rw [hstep, bind_error hrun, List.findSome?_cons, herror]
        rfl
      · rw [hkeeps, List.dropWhile_cons_of_neg (by simp [herror])]
        rfl
    | none =>
      rw [herror] at hrun
      obtain ⟨s', hs', hbooks⟩ := ih (final (abortRequest w m) s₁) hdeferred
      refine ⟨s', ?_, ?_⟩
      · rw [hstep, bind_ok hrun, hs', List.findSome?_cons, herror]
      · rw [hbooks, hmarks, hended, hkept, List.dropWhile_cons_of_pos (by simp [herror])]
        rfl

/-- What a call adds to the books, `ended` where the execution had ended before. -/
def Turn.marks (request : ExecuteRequest) (ended : Bool) : Turn → List Mark
  | .unsent ends _ => if ends && !ended then [.endExecution] else []
  | .unstored _ => (if ended then [] else [.endExecution]) ++ [.reply request.header]
  | .done => (if ended then [] else [.endExecution]) ++ [.reply request.header] ++
      (if !request.silent && request.storeHistory then [.stored] else []) ++
      [.status (executionState "idle") request.header]

/-- What the callback does once it has read the reply. -/
def replying (w : World) (request : ExecuteRequest) (reply executionCount : Json)
    (status : String) : KernelM Unit := do
  given (aborts request status) (abortQueue w)
  sendReply w "execute_reply" request.header reply .shell
  given (!request.silent && request.storeHistory) (storeInputs w executionCount request.code)
  publishStatus request.header "idle" .shell

section OneReply

variable {header : Json}

end OneReply

/-- A cell that stops what is queued where it fails. -/
def stopping : ExecuteRequest where
  header := .object [("msg_type", .string "execute_request")]
  identities := []
  code := "stop()"
  silent := false
  storeHistory := true
  allowStdin := true
  userExpressions := .object []
  stopOnError := true

/-- A request whose type has no underscore: the name of its reply cannot be made. -/
def ping : Message where
  identities := []
  header := .object [("msg_type", .string "ping")]
  content := .object []

/-- The interpreter calls its callback with an error and lets through what that throws. -/
def failing (before : Meanwhile) : Conduct :=
  .calls before (createErrorReply "ERROR" "") fun e => ({}, e.map Exception.what)

end Jovian.Kernel
