import Mathlib.Data.List.Nodup

/-!
# InsertionMap — a map that remembers the order its keys were first set in

The association list behind a JavaScript `Map`: `set` keeps the place of a key that is
there already and appends a new one, `delete` removes it, and iteration goes in list
order.
-/

/-- Keys with their values, in insertion order. -/
abbrev InsertionMap (κ ν : Type*) := List (κ × ν)

namespace InsertionMap

variable {κ ν : Type*} [DecidableEq κ]

/-- The value of `k`, if it is set. -/
def get (m : InsertionMap κ ν) (k : κ) : Option ν :=
  (m.find? fun p => p.1 = k).map (·.2)

/-- Sets `k`: in its old place when it is there, at the end when it is new. -/
def set (m : InsertionMap κ ν) (k : κ) (v : ν) : InsertionMap κ ν :=
  if m.any (fun p => p.1 = k) then m.map fun p => if p.1 = k then (k, v) else p
  else m ++ [(k, v)]

/-- Removes `k`. -/
def delete (m : InsertionMap κ ν) (k : κ) : InsertionMap κ ν :=
  m.filter fun p => p.1 ≠ k

/-- No key twice. -/
def Unique (m : InsertionMap κ ν) : Prop :=
  (m.map Prod.fst).Nodup

theorem mem_of_get {m : InsertionMap κ ν} {k : κ} {v : ν} (h : m.get k = some v) :
    (k, v) ∈ m := by
  rw [get, Option.map_eq_some_iff] at h
  obtain ⟨⟨k', v'⟩, hfind, rfl⟩ := h
  have hk : k' = k := by simpa using List.find?_some hfind
  exact hk ▸ List.mem_of_find?_eq_some hfind

theorem get_of_mem {m : InsertionMap κ ν} (hm : m.Unique) {k : κ} {v : ν} (h : (k, v) ∈ m) :
    m.get k = some v := by
  induction m with
  | nil => simp at h
  | cons p m ih =>
    rw [Unique, List.map_cons, List.nodup_cons] at hm
    obtain ⟨hp, hm⟩ := hm
    rcases List.mem_cons.mp h with rfl | h
    · simp [get]
    · have hne : p.1 ≠ k := fun heq => hp (heq ▸ List.mem_map_of_mem (f := Prod.fst) h)
      have := ih hm h
      simpa [get, List.find?_cons, hne] using this

theorem get_delete_ne (m : InsertionMap κ ν) {k k' : κ} (h : k' ≠ k) :
    (m.delete k).get k' = m.get k' := by
  rw [get, get, delete, List.find?_filter]
  congr 2
  funext p
  by_cases hp : p.1 = k' <;> simp [hp, h]

theorem get_set_self (m : InsertionMap κ ν) (k : κ) (v : ν) : (m.set k v).get k = some v := by
  unfold set
  split
  · next hk =>
    obtain ⟨q, hq, hqk⟩ := List.any_eq_true.mp hk
    induction m with
    | nil => simp at hq
    | cons p m ih =>
      by_cases hp : p.1 = k
      · simp [get, hp]
      · have hqm : q ∈ m := by
          rcases List.mem_cons.mp hq with rfl | hqm
          · exact absurd (of_decide_eq_true hqk) hp
          · exact hqm
        have := ih (List.any_eq_true.mpr ⟨q, hqm, hqk⟩) hqm
        simpa [get, List.find?_cons, hp] using this
  · next hk =>
    have hnone : m.find? (fun p => p.1 = k) = none := by
      rw [List.find?_eq_none]
      exact fun p hp hpk => hk (List.any_eq_true.mpr ⟨p, hp, hpk⟩)
    simp [get, List.find?_append, hnone]

theorem get_set_ne (m : InsertionMap κ ν) {k k' : κ} (h : k' ≠ k) (v : ν) :
    (m.set k v).get k' = m.get k' := by
  have hmap : ∀ m : InsertionMap κ ν,
      get (m.map fun p => if p.1 = k then (k, v) else p) k' = m.get k' := by
    intro m
    induction m with
    | nil => rfl
    | cons p m ih =>
      by_cases hp : p.1 = k
      · have hp' : p.1 ≠ k' := fun heq => h (heq.symm.trans hp)
        simpa [get, List.find?_cons, hp, h.symm, hp'] using ih
      · by_cases hp' : p.1 = k'
        · simp [get, hp', h]
        · simpa [get, List.find?_cons, hp, hp'] using ih
  unfold set
  split
  · exact hmap m
  · simp [get, List.find?_append, h.symm]

theorem mem_delete {m : InsertionMap κ ν} {k : κ} {p : κ × ν} :
    p ∈ m.delete k ↔ p ∈ m ∧ p.1 ≠ k := by
  simp [delete]

theorem mem_set {m : InsertionMap κ ν} {k : κ} {v : ν} {p : κ × ν} :
    p ∈ m.set k v ↔ p = (k, v) ∨ p ∈ m ∧ p.1 ≠ k := by
  unfold set
  split
  · next h =>
    obtain ⟨q, hq, hqk⟩ := List.any_eq_true.mp h
    rw [List.mem_map]
    constructor
    · rintro ⟨r, hr, rfl⟩
      by_cases hrk : r.1 = k
      · exact .inl (by simp [hrk])
      · exact .inr (by simpa [hrk] using hr)
    · rintro (rfl | ⟨hp, hpk⟩)
      · exact ⟨q, hq, if_pos (of_decide_eq_true hqk)⟩
      · exact ⟨p, hp, by simp [hpk]⟩
  · next h =>
    have hnone : ∀ q ∈ m, q.1 ≠ k := fun q hq hqk =>
      h (List.any_eq_true.mpr ⟨q, hq, by simpa using hqk⟩)
    rw [List.mem_append, List.mem_singleton]
    exact ⟨fun hp => hp.symm.imp_right fun hm => ⟨hm, hnone p hm⟩,
      fun hp => hp.symm.imp_left And.left⟩

theorem Unique.delete {m : InsertionMap κ ν} (h : m.Unique) (k : κ) : (m.delete k).Unique :=
  (List.filter_sublist.map Prod.fst).nodup h

theorem Unique.set {m : InsertionMap κ ν} (h : m.Unique) (k : κ) (v : ν) : (m.set k v).Unique := by
  unfold InsertionMap.set
  split
  · have hkeys : (m.map fun p => if p.1 = k then (k, v) else p).map Prod.fst = m.map Prod.fst := by
      rw [List.map_map]
      refine List.map_congr_left fun p _ => ?_
      by_cases hp : p.1 = k <;> simp [hp]
    rw [Unique, hkeys]
    exact h
  · next hk =>
    rw [Unique, List.map_append, List.nodup_append]
    refine ⟨h, by simp, ?_⟩
    rintro a ha b hb rfl
    obtain ⟨p, hp, rfl⟩ := List.mem_map.mp ha
    simp only [List.map_cons, List.map_nil, List.mem_singleton] at hb
    exact hk (List.any_eq_true.mpr ⟨p, hp, by simpa using hb⟩)

end InsertionMap
