/-!
# FrameBatcher — items handed over in one batch a frame (`frame-batcher.ts`)

An item that is pushed waits. The first to wait asks for a display frame and sets a timer, as no frames come
in a background tab; whichever comes first hands over all that waits, and cancels the other.

* **`push_scheduled`**, **`flush_scheduled`** — while anything waits, one frame and one timer are scheduled, and none
  otherwise: what waits is handed over, and no callback is left behind.
-/

namespace Jovian

/-- A batcher, with the scheduler's callbacks that are outstanding for it, each under its handle. -/
structure FrameBatcher (α : Type) where
  pending : List α := []
  frame : Option Nat := none
  timer : Option Nat := none
  frames : List Nat := []
  timers : List Nat := []
  /-- The handles given so far. -/
  handles : Nat := 0

namespace FrameBatcher

variable {α : Type}

def requestFrame (b : FrameBatcher α) : FrameBatcher α :=
  { b with frame := some b.handles, frames := b.frames ++ [b.handles], handles := b.handles + 1 }

def setTimer (b : FrameBatcher α) : FrameBatcher α :=
  { b with timer := some b.handles, timers := b.timers ++ [b.handles], handles := b.handles + 1 }

def push (b : FrameBatcher α) (item : α) : FrameBatcher α :=
  let b := { b with pending := b.pending ++ [item] }
  let b := if b.frame = none then b.requestFrame else b
  if b.timer = none then b.setTimer else b

def cancel (b : FrameBatcher α) : FrameBatcher α :=
  { b with
    frames := b.frames.filter (some · ≠ b.frame)
    timers := b.timers.filter (some · ≠ b.timer)
    frame := none
    timer := none }

/-- What waits is handed over; with nothing waiting nothing is. -/
def flush (b : FrameBatcher α) : FrameBatcher α × List α :=
  ({ b.cancel with pending := [] }, b.pending)

def dispose (b : FrameBatcher α) : FrameBatcher α :=
  { b.cancel with pending := [] }

/-- A frame's callback runs, or a timer's; it is outstanding no more. -/
def frameRuns (b : FrameBatcher α) (handle : Nat) : FrameBatcher α × List α :=
  if handle ∈ b.frames then { b with frames := b.frames.filter (· ≠ handle) }.flush else (b, [])

def timerRuns (b : FrameBatcher α) (handle : Nat) : FrameBatcher α × List α :=
  if handle ∈ b.timers then { b with timers := b.timers.filter (· ≠ handle) }.flush else (b, [])

/-! ## What is scheduled -/

/-- What is outstanding is what the batcher knows of, and that as long as anything waits. -/
structure Scheduled (b : FrameBatcher α) : Prop where
  frames : b.frames = b.frame.toList
  timers : b.timers = b.timer.toList
  frame_iff : b.frame.isSome ↔ b.pending ≠ []
  timer_iff : b.timer.isSome ↔ b.pending ≠ []

variable {b : FrameBatcher α}

theorem scheduled_new : Scheduled ({} : FrameBatcher α) :=
  ⟨rfl, rfl, by simp, by simp⟩

@[simp] theorem push_pending (b : FrameBatcher α) (item : α) : (b.push item).pending = b.pending ++ [item] := by
  cases hframe : b.frame <;> cases htimer : b.timer <;> simp [push, requestFrame, setTimer, hframe, htimer]

theorem push_scheduled (h : b.Scheduled) (item : α) : (b.push item).Scheduled := by
  obtain ⟨hframes, htimers, hframe, htimer⟩ := h
  have hwaits : b.pending ++ [item] ≠ [] := by simp
  cases hf : b.frame with
  | none =>
    have hnone : b.timer = none := by
      have hempty : b.pending = [] := by
        rw [hf] at hframe
        simpa using hframe
      rw [hempty] at htimer
      simpa using htimer
    have hf' : b.frames = [] := by rw [hframes, hf, Option.toList_none]
    have ht' : b.timers = [] := by rw [htimers, hnone, Option.toList_none]
    simp only [push, hf, hnone, requestFrame, setTimer, if_true]
    refine ⟨?_, ?_, ?_, ?_⟩
    · rw [hf', List.nil_append, Option.toList_some]
    · rw [ht', List.nil_append, Option.toList_some]
    · simp
    · simp
  | some handle =>
    have hsome : b.pending ≠ [] := hframe.mp (by rw [hf]; rfl)
    obtain ⟨handle', ht⟩ := Option.isSome_iff_exists.mp (htimer.mpr hsome)
    simp only [push, hf, ht, reduceCtorEq, if_false]
    refine ⟨?_, ?_, ?_, ?_⟩
    · rw [← hf]
      exact hframes
    · rw [← ht]
      exact htimers
    · simp
    · simp

theorem cancel_flush (h : b.Scheduled) {b' : FrameBatcher α} (hpending : b'.pending = b.pending)
    (hframe : b'.frame = b.frame) (htimer : b'.timer = b.timer) (hframes : ∀ x ∈ b'.frames, x ∈ b.frames)
    (htimers : ∀ x ∈ b'.timers, x ∈ b.timers) :
    b'.flush.1.Scheduled ∧ b'.flush.1.pending = [] ∧ b'.flush.2 = b.pending := by
  have hnone : ∀ {l l' : List Nat} {o : Option Nat}, l' = o.toList → (∀ x ∈ l, x ∈ l') →
      l.filter (some · ≠ o) = [] := by
    intro l l' o hl' hsub
    apply List.filter_eq_nil_iff.mpr
    intro x hx
    have hx' := hsub x hx
    rw [hl', Option.mem_toList] at hx'
    simp [hx'.symm]
  refine ⟨⟨?_, ?_, ?_, ?_⟩, rfl, hpending⟩
  · show b'.frames.filter (some · ≠ b'.frame) = []
    rw [hframe]
    exact hnone h.frames hframes
  · show b'.timers.filter (some · ≠ b'.timer) = []
    rw [htimer]
    exact hnone h.timers htimers
  · simp [flush, cancel]
  · simp [flush, cancel]

theorem flush_scheduled (h : b.Scheduled) : b.flush.1.Scheduled :=
  (cancel_flush h rfl rfl rfl (fun _ hx => hx) fun _ hx => hx).1

/-- Whichever runs, all that waits is handed over. -/
theorem frameRuns_eq (h : b.Scheduled) {handle : Nat} (hin : handle ∈ b.frames) :
    (b.frameRuns handle).1.Scheduled ∧ (b.frameRuns handle).1.pending = [] ∧
      (b.frameRuns handle).2 = b.pending := by
  rw [frameRuns, if_pos hin]
  exact cancel_flush h rfl rfl rfl (fun _ hx => (List.mem_filter.mp hx).1) fun _ hx => hx

theorem timerRuns_eq (h : b.Scheduled) {handle : Nat} (hin : handle ∈ b.timers) :
    (b.timerRuns handle).1.Scheduled ∧ (b.timerRuns handle).1.pending = [] ∧
      (b.timerRuns handle).2 = b.pending := by
  rw [timerRuns, if_pos hin]
  exact cancel_flush h rfl rfl rfl (fun _ hx => hx) fun _ hx => (List.mem_filter.mp hx).1

/-- A batcher that is disposed of leaves no callback behind. -/
theorem dispose_idle (h : b.Scheduled) : b.dispose.frames = [] ∧ b.dispose.timers = [] := by
  have hflushed := flush_scheduled h
  exact ⟨hflushed.frames, hflushed.timers⟩

end FrameBatcher

end Jovian
