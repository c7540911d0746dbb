import Jovian.Client.SessionCalls

/-!
# Jovian — the connection of a session

What the promises, the sockets and the restarts of a session have to do with each other in every
state, whatever the calls do.

* **`Lines`** — a `readyPromise` that is not settled yet is a restart's, or that of an open socket.
* **`Replaced`** — a session that goes on without its socket waits for a restart, or its restart
  failed.
-/

namespace Jovian.SessionCalls

namespace Connection

variable {c : Connection}

theorem promise_settle (c : Connection) (p q : Nat) (r : Ready) :
    (c.settle p r).promise q =
      if q = p ∧ q < c.promises.length ∧ c.promise q = .pending then r else c.promise q := by
  unfold settle promise
  rw [List.getD_eq_getElem?_getD, List.getD_eq_getElem?_getD, List.getElem?_modify]
  by_cases hp : p = q
  · subst hp
    cases hr : c.promises[p]? with
    | none => simp [List.getElem?_eq_none_iff.mp hr]
    | some r' =>
      have hlt := (List.getElem?_eq_some_iff.mp hr).1
      cases r' <;> simp [hlt]
  · have hne : ¬ q = p := fun heq => hp heq.symm
    simp [hp, hne]

/-- What is settled stays. -/
theorem promise_settle_of_ne {p q : Nat} (r : Ready) (hq : c.promise q ≠ .pending) :
    (c.settle p r).promise q = c.promise q := by
  rw [promise_settle, if_neg fun h => hq h.2.2]

theorem promise_settle_other {p q : Nat} (r : Ready) (hne : q ≠ p) :
    (c.settle p r).promise q = c.promise q := by
  rw [promise_settle, if_neg fun h => hne h.1]

theorem length_settle (c : Connection) (p : Nat) (r : Ready) :
    (c.settle p r).promises.length = c.promises.length :=
  List.length_modify _ _ _

theorem getElem?_close (c : Connection) (ws k : Nat) :
    (c.close ws).sockets[k]? =
      if ws = k then (c.sockets[k]?).map fun socket => { socket with closed := true } else c.sockets[k]? := by
  unfold close
  rw [List.getElem?_modify]
  split
  · rfl
  · exact Option.map_id'

/-- The promises, the sockets and the restarts of a session. -/
structure Lines (c : Connection) : Prop where
  promises : 0 < c.promises.length
  sockets : 0 < c.sockets.length
  nodup : c.restarting.Nodup
  restarting : ∀ p ∈ c.restarting, p < c.promises.length ∧ c.promise p = .pending
  socket : ∀ socket ∈ c.sockets, socket.ready < c.promises.length ∧ socket.ready ∉ c.restarting
  place : ∀ p < c.promises.length, c.promise p = .pending →
    p ∈ c.restarting ∨ ∃ socket ∈ c.sockets, socket.ready = p ∧ socket.closed = false

/-- A session that goes on without its socket waits for a restart, or the restart failed. -/
def Replaced (c : Connection) : Prop :=
  c.ended = false → c.carries c.ws = false →
    c.readyPromise ∈ c.restarting ∨ ∃ error, c.promise c.readyPromise = .rejected error

theorem lines_init : Lines {} where
  promises := Nat.zero_lt_one
  sockets := Nat.zero_lt_one
  nodup := List.nodup_nil
  restarting _ h := absurd h List.not_mem_nil
  socket socket h := by
    rw [List.mem_singleton.mp h]
    exact ⟨Nat.zero_lt_one, List.not_mem_nil⟩
  place p hp _ := by
    obtain rfl : p = 0 := Nat.lt_one_iff.mp hp
    exact .inr ⟨_, List.mem_cons_self, rfl, rfl⟩

namespace Lines

theorem with_flags (h : Lines c) (stopped : Bool) (dead : Option String) :
    Lines { c with stopped, dead } :=
  ⟨h.promises, h.sockets, h.nodup, h.restarting, h.socket, h.place⟩

/-- A promise that no restart will settle is settled. -/
theorem settle (h : Lines c) {p : Nat} (hp : p ∉ c.restarting) {r : Ready} (hr : r ≠ .pending) :
    Lines (c.settle p r) where
  promises := (length_settle c p r).symm ▸ h.promises
  sockets := h.sockets
  nodup := h.nodup
  restarting q hq := by
    obtain ⟨hlt, hpending⟩ := h.restarting q hq
    rw [length_settle, promise_settle_other r (ne_of_mem_of_not_mem hq hp)]
    exact ⟨hlt, hpending⟩
  socket socket hsocket := by
    rw [length_settle]
    exact h.socket socket hsocket
  place q hq hpending := by
    rw [length_settle] at hq
    rw [promise_settle] at hpending
    split at hpending
    · exact absurd hpending hr
    · exact h.place q hq hpending

/-- A socket closes, and its promise is settled. -/
theorem close (h : Lines c) {k : Nat} {socket : Socket} (hk : c.sockets[k]? = some socket) {r : Ready}
    (hr : r ≠ .pending) : Lines ((c.close k).settle socket.ready r) := by
  have hready := h.socket socket (List.mem_of_getElem? hk)
  have hmem : ∀ socket' ∈ (c.close k).sockets, ∃ old ∈ c.sockets, socket'.ready = old.ready := by
    intro socket' hsocket'
    obtain ⟨j, hj⟩ := List.getElem?_of_mem hsocket'
    rw [getElem?_close] at hj
    split at hj
    · obtain ⟨old, hold, rfl⟩ := Option.map_eq_some_iff.mp hj
      exact ⟨old, List.mem_of_getElem? hold, rfl⟩
    · exact ⟨socket', List.mem_of_getElem? hj, rfl⟩
  constructor
  · rw [length_settle]
    exact h.promises
  · exact (List.length_modify _ _ _).symm ▸ h.sockets
  · exact h.nodup
  · intro q hq
    obtain ⟨hlt, hpending⟩ := h.restarting q hq
    rw [length_settle, promise_settle_other r (ne_of_mem_of_not_mem hq hready.2)]
    exact ⟨hlt, hpending⟩
  · intro socket' hsocket'
    obtain ⟨old, hold, heq⟩ := hmem socket' hsocket'
    rw [length_settle, heq]
    exact h.socket old hold
  · intro q hq hpending
    rw [length_settle] at hq
    rw [promise_settle] at hpending
    split at hpending
    · exact absurd hpending hr
    · next hne =>
      refine (h.place q hq hpending).imp_right fun ⟨other, hother, hotherq, hopen⟩ => ?_
      obtain ⟨j, hj⟩ := List.getElem?_of_mem hother
      have hkj : k ≠ j := by
        rintro rfl
        refine hne ⟨?_, hq, hpending⟩
        rw [← hotherq, Option.some.inj (hj.symm.trans hk)]
      refine ⟨other, List.mem_of_getElem? (i := j) ?_, hotherq, hopen⟩
      exact ((getElem?_close c k j).trans (if_neg hkj)).trans hj

/-- `restart()` makes its promise. -/
theorem restart (h : Lines c) : Lines { c with
    promises := c.promises ++ [.pending]
    restarting := c.restarting ++ [c.promises.length] } := by
  have hold : ∀ p < c.promises.length, (c.promises ++ [Ready.pending]).getD p .pending = c.promise p := by
    intro p hp
    rw [List.getD_eq_getElem?_getD, List.getElem?_append_left hp]
    exact (List.getD_eq_getElem?_getD ..).symm
  have hnew : c.promises.length ∉ c.restarting := fun hmem =>
    absurd (h.restarting _ hmem).1 (Nat.lt_irrefl _)
  constructor
  · simp
  · exact h.sockets
  · rw [List.nodup_append]
    refine ⟨h.nodup, by simp, ?_⟩
    rintro p hp _ hp' rfl
    exact hnew (List.mem_singleton.mp hp' ▸ hp)
  · intro p hp
    rw [List.length_append]
    rcases List.mem_append.mp hp with hp | hp
    · obtain ⟨hlt, hpending⟩ := h.restarting p hp
      exact ⟨Nat.lt_succ_of_lt hlt, (hold p hlt).trans hpending⟩
    · rw [List.mem_singleton.mp hp]
      refine ⟨Nat.lt_succ_self _, ?_⟩
      simp [promise]
  · intro socket hsocket
    obtain ⟨hlt, hmem⟩ := h.socket socket hsocket
    rw [List.length_append]
    refine ⟨Nat.lt_succ_of_lt hlt, fun hp => ?_⟩
    rcases List.mem_append.mp hp with hp | hp
    · exact hmem hp
    · exact absurd (List.mem_singleton.mp hp) (Nat.ne_of_lt hlt)
  · intro p hp hpending
    rw [List.length_append] at hp
    rcases Nat.lt_succ_iff_lt_or_eq.mp hp with hp | rfl
    · exact (h.place p hp ((hold p hp).symm.trans hpending)).imp_left fun hp => List.mem_append_left _ hp
    · exact .inl (List.mem_append_right _ List.mem_cons_self)

/-- `connect()` of a restart makes its socket. -/
theorem connect (h : Lines c) {p : Nat} (hp : p ∈ c.restarting) : Lines { c with
    restarting := c.restarting.erase p
    sockets := c.sockets ++ [{ ready := p }] } where
  promises := h.promises
  sockets := by simp
  nodup := h.nodup.erase p
  restarting q hq := h.restarting q (List.mem_of_mem_erase hq)
  socket socket hsocket := by
    rcases List.mem_append.mp hsocket with hsocket | hsocket
    · obtain ⟨hlt, hmem⟩ := h.socket socket hsocket
      exact ⟨hlt, fun hq => hmem (List.mem_of_mem_erase hq)⟩
    · rw [List.mem_singleton.mp hsocket]
      exact ⟨(h.restarting p hp).1, h.nodup.not_mem_erase⟩
  place q hq hpending := by
    by_cases heq : q = p
    · exact .inr ⟨_, List.mem_append_right _ List.mem_cons_self, heq.symm, rfl⟩
    · refine (h.place q hq hpending).imp (List.mem_erase_of_ne heq).mpr ?_
      exact fun ⟨socket, hsocket, hready⟩ => ⟨socket, List.mem_append_left _ hsocket, hready⟩

/-- A restart fails. -/
theorem restartFailed (h : Lines c) {p : Nat} (error : String) :
    Lines ({ c with restarting := c.restarting.erase p }.settle p (.rejected error)) where
  promises := (length_settle _ p _).symm ▸ h.promises
  sockets := h.sockets
  nodup := h.nodup.erase p
  restarting q hq := by
    obtain ⟨hlt, hpending⟩ := h.restarting q (List.mem_of_mem_erase hq)
    have hne : q ≠ p := by
      rintro rfl
      exact h.nodup.not_mem_erase hq
    rw [length_settle, promise_settle_other _ hne]
    exact ⟨hlt, hpending⟩
  socket socket hsocket := by
    obtain ⟨hlt, hmem⟩ := h.socket socket hsocket
    rw [length_settle]
    exact ⟨hlt, fun hq => hmem (List.mem_of_mem_erase hq)⟩
  place q hq hpending := by
    rw [length_settle] at hq
    rw [promise_settle] at hpending
    split at hpending
    · cases hpending
    · next hne =>
      have hqp : q ≠ p := fun heq => hne ⟨heq, hq, hpending⟩
      exact (h.place q hq hpending).imp_left (List.mem_erase_of_ne hqp).mpr

end Lines

/-- Another socket than `this.ws` closes. -/
theorem carries_close {k : Nat} (hk : c.ws ≠ k) (ws : Nat) : (c.close k).carries ws = c.carries ws := by
  have hws : (c.close k).ws = c.ws := congrArg (· - 1) (List.length_modify _ _ _)
  unfold carries
  rw [hws]
  by_cases heq : ws = c.ws
  · rw [getElem?_close, if_neg (heq ▸ hk.symm)]
  · simp [heq]

namespace Replaced

theorem of_ended (h : c.ended = true) : c.Replaced := by
  intro hended
  rw [h] at hended
  cases hended

theorem settle (h : c.Replaced) (p : Nat) (r : Ready) : (c.settle p r).Replaced := by
  intro hended hcarries
  have hready : (c.settle p r).readyPromise = c.readyPromise := congrArg (· - 1) (length_settle c p r)
  rw [hready]
  refine (h hended hcarries).imp_right fun ⟨error, herror⟩ => ⟨error, ?_⟩
  rw [promise_settle_of_ne r (by simp [herror]), herror]

theorem close (h : c.Replaced) {k : Nat} (hk : c.ws ≠ k) : (c.close k).Replaced := by
  intro hended hcarries
  have hws : (c.close k).ws = c.ws := congrArg (· - 1) (List.length_modify _ _ _)
  rw [hws, carries_close hk] at hcarries
  exact h hended hcarries

theorem restartFailed (h : c.Replaced) (hlines : c.Lines) (p : Nat) (error : String) :
    Replaced ({ c with restarting := c.restarting.erase p }.settle p (.rejected error)) := by
  intro hended hcarries
  set c' : Connection := { c with restarting := c.restarting.erase p }
  have hready : (c'.settle p (.rejected error)).readyPromise = c.readyPromise :=
    congrArg (· - 1) (length_settle c' p _)
  rw [hready]
  rcases h hended hcarries with hmem | ⟨error', herror⟩
  · by_cases heq : c.readyPromise = p
    · -- the restart that failed is the one the session waits for
      obtain ⟨hlt, hpending⟩ := hlines.restarting _ hmem
      exact .inr ⟨error, (promise_settle c' p _ _).trans (if_pos ⟨heq, hlt, hpending⟩)⟩
    · exact .inl ((List.mem_erase_of_ne heq).mpr hmem)
  · refine .inr ⟨error', ?_⟩
    have hstays : c'.promise c.readyPromise = .rejected error' := herror
    rw [promise_settle_of_ne _ (by simp [hstays]), hstays]

end Replaced

end Connection

end Jovian.SessionCalls
