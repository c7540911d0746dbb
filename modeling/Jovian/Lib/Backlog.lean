import Mathlib.Data.List.Infix

/-!
# Backlog — what is still unread from before a moment

A queue is read front to back: everything that ever entered it is what has been read
followed by what it still holds. Of what had entered by an earlier moment, `before`, the
part still held is its front, `backlog`; reading is up to date with that moment exactly when
there is none (`prefix_iff_backlog`).
-/

/-- The front of `queue`, the unread rest of `all`, that had entered when only `before` had. -/
def backlog {α : Type*} (queue before all : List α) : List α :=
  queue.take (queue.length + before.length - all.length)

namespace Backlog

variable {α β : Type*}

/-- `before` has been read but for its backlog. -/
theorem filterMap_prefix_iff (f : α → Option β) {done queue before : List α}
    (hbefore : before <+: done ++ queue) :
    before.filterMap f <+: done.filterMap f ↔
      (backlog queue before (done ++ queue)).filterMap f = [] := by
  have hk : queue.length + before.length - (done ++ queue).length = before.length - done.length := by
    rw [List.length_append]
    omega
  rw [backlog, hk]
  rcases Nat.le_total before.length done.length with hle | hle
  · rw [Nat.sub_eq_zero_of_le hle, List.take_zero]
    have hinitial : before <+: done :=
      List.prefix_of_prefix_length_le hbefore (List.prefix_append _ _) hle
    exact ⟨fun _ => rfl, fun _ => hinitial.filterMap f⟩
  · -- `before` is `done` and the front of `queue`
    have hsplit : before = done ++ queue.take (before.length - done.length) := by
      obtain ⟨rest, hrest⟩ := hbefore
      have := congrArg (List.take before.length) hrest
      rw [List.take_left, List.take_append, List.take_of_length_le hle] at this
      exact this
    generalize before.length - done.length = k at hsplit ⊢
    rw [hsplit, List.filterMap_append]
    nth_rewrite 2 [← List.append_nil (done.filterMap f)]
    rw [List.prefix_append_right_inj, List.prefix_nil]

end Backlog
