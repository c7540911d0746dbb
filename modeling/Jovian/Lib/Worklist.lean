import Mathlib.Logic.Relation
import Mathlib.Data.List.Nodup

/-!
# Worklist — what a graph reaches from some of its nodes

A queue of nodes to look at, and those seen, in the order they were: a node is looked at once, and
`expand` is what it adds to the queue, which may leave out what was seen.

* **`mem_visit_iff`** — what is seen in the end is what the queue reaches.
* `visit_of_within`, `exists_within` — `within` runs a number of turns, and what it ends with is what
  `visit` does; there are enough.
-/

namespace Worklist

variable {α : Type*} [DecidableEq α]

/-- Only `nodes` are looked into. -/
def visit (nodes : List α) (expand : List α → α → List α) (seen : List α) : List α → List α
  | [] => seen
  | p :: queue =>
    if p ∈ seen then visit nodes expand seen queue
    else if p ∈ nodes then visit nodes expand (seen ++ [p]) (queue ++ expand (seen ++ [p]) p)
    else visit nodes expand (seen ++ [p]) queue
termination_by queue => ((nodes.filter (· ∉ seen)).length, queue.length)
decreasing_by
  · exact Prod.Lex.right _ (Nat.lt_succ_self _)
  · refine Prod.Lex.left _ _ ?_
    have hsub : nodes.filter (· ∉ seen ++ [p]) = (nodes.filter (· ∉ seen)).filter (· ≠ p) := by
      rw [List.filter_filter]
      refine List.filter_congr fun q _ => ?_
      simp only [List.mem_append, List.mem_singleton, not_or, Bool.decide_and, Bool.and_comm]
    rw [hsub]
    refine List.length_filter_lt_length_iff_exists.mpr ⟨p, ?_, by simp⟩
    simp_all
  · have hsub : nodes.filter (· ∉ seen ++ [p]) = nodes.filter (· ∉ seen) := by
      refine List.filter_congr fun q hq => ?_
      have hne : q ≠ p := fun h => by simp_all
      simp [hne]
    rw [hsub]
    exact Prod.Lex.right _ (Nat.lt_succ_self _)

variable {nodes seen queue : List α} {expand : List α → α → List α} {succ : α → List α} {p q : α}

/-- From a node to one it adds. -/
def Edge (nodes : List α) (succ : α → List α) (p q : α) : Prop := p ∈ nodes ∧ q ∈ succ p

def Reaches (nodes : List α) (succ : α → List α) : α → α → Prop :=
  Relation.ReflTransGen (Edge nodes succ)

theorem subset_visit (h : q ∈ seen ∨ q ∈ queue) : q ∈ visit nodes expand seen queue := by
  induction seen, queue using visit.induct nodes expand with
  | case1 seen =>
    rw [visit]
    exact h.resolve_right List.not_mem_nil
  | case2 seen p queue hseen ih =>
    rw [visit, if_pos hseen]
    refine ih (h.elim .inl fun h => ?_)
    rcases List.mem_cons.mp h with rfl | h
    · exact .inl hseen
    · exact .inr h
  | case3 seen p queue hseen hnode ih | case4 seen p queue hseen hnode ih =>
    rw [visit, if_neg hseen]
    simp only [hnode, if_true, if_false]
    refine ih ?_
    rcases h with h | h
    · exact .inl (List.mem_append_left _ h)
    · rcases List.mem_cons.mp h with rfl | h
      · exact .inl (List.mem_append_right _ List.mem_cons_self)
      · simp [h]

/-- What a seen node adds is seen in the end, where it is seen or queued. -/
theorem closed_visit (hexpand : ∀ seen p q, q ∈ succ p → q ∈ expand seen p ∨ q ∈ seen)
    (h : ∀ p ∈ seen, p ∈ nodes → ∀ q ∈ succ p, q ∈ seen ∨ q ∈ queue)
    (hp : p ∈ visit nodes expand seen queue) (hnode : p ∈ nodes) (hq : q ∈ succ p) :
    q ∈ visit nodes expand seen queue := by
  induction seen, queue using visit.induct nodes expand with
  | case1 seen =>
    rw [visit] at hp ⊢
    exact (h p hp hnode q hq).resolve_right List.not_mem_nil
  | case2 seen a queue hseen ih =>
    rw [visit, if_pos hseen] at hp ⊢
    refine ih (fun b hb hnode c hc => ?_) hp
    rcases h b hb hnode c hc with h | h
    · exact .inl h
    · rcases List.mem_cons.mp h with rfl | h
      · exact .inl hseen
      · exact .inr h
  | case3 seen a queue hseen hnode ih =>
    rw [visit, if_neg hseen, if_pos hnode] at hp ⊢
    refine ih (fun b hb hbnode c hc => ?_) hp
    rcases List.mem_append.mp hb with hb | hb
    · rcases h b hb hbnode c hc with h | h
      · exact .inl (List.mem_append_left _ h)
      · rcases List.mem_cons.mp h with rfl | h
        · exact .inl (List.mem_append_right _ List.mem_cons_self)
        · exact .inr (List.mem_append_left _ h)
    · obtain rfl := List.mem_singleton.mp hb
      exact (hexpand _ b c hc).symm.imp_right fun h => List.mem_append_right _ h
  | case4 seen a queue hseen hnode ih =>
    rw [visit, if_neg hseen, if_neg hnode] at hp ⊢
    refine ih (fun b hb hbnode c hc => ?_) hp
    rcases List.mem_append.mp hb with hb | hb
    · rcases h b hb hbnode c hc with h | h
      · exact .inl (List.mem_append_left _ h)
      · rcases List.mem_cons.mp h with rfl | h
        · exact .inl (List.mem_append_right _ List.mem_cons_self)
        · exact .inr h
    · obtain rfl := List.mem_singleton.mp hb
      exact absurd hbnode hnode

/-- Nothing else is seen. -/
theorem reaches_of_visit (hexpand : ∀ seen p q, q ∈ expand seen p → q ∈ succ p)
    {P : α → Prop} (hseen : ∀ p ∈ seen, P p) (hqueue : ∀ p ∈ queue, P p)
    (hP : ∀ p q, P p → p ∈ nodes → q ∈ succ p → P q) (hq : q ∈ visit nodes expand seen queue) :
    P q := by
  induction seen, queue using visit.induct nodes expand with
  | case1 seen =>
    rw [visit] at hq
    exact hseen q hq
  | case2 seen p queue hp ih =>
    rw [visit, if_pos hp] at hq
    exact ih hseen (fun p hp => hqueue p (List.mem_cons_of_mem _ hp)) hq
  | case3 seen p queue hp hnode ih =>
    rw [visit, if_neg hp, if_pos hnode] at hq
    have hPp := hqueue p List.mem_cons_self
    refine ih (fun a ha => ?_) (fun a ha => ?_) hq
    · rcases List.mem_append.mp ha with ha | ha
      · exact hseen a ha
      · exact List.mem_singleton.mp ha ▸ hPp
    · rcases List.mem_append.mp ha with ha | ha
      · exact hqueue a (List.mem_cons_of_mem _ ha)
      · exact hP p a hPp hnode (hexpand _ _ _ ha)
  | case4 seen p queue hp hnode ih =>
    rw [visit, if_neg hp, if_neg hnode] at hq
    refine ih (fun a ha => ?_) (fun a ha => hqueue a (List.mem_cons_of_mem _ ha)) hq
    rcases List.mem_append.mp ha with ha | ha
    · exact hseen a ha
    · exact List.mem_singleton.mp ha ▸ hqueue p List.mem_cons_self

/-- **What is seen in the end is what the queue reaches.** -/
theorem mem_visit_iff (succ : α → List α) (hexpand : ∀ seen p q, q ∈ expand seen p → q ∈ succ p)
    (hskip : ∀ seen p q, q ∈ succ p → q ∈ expand seen p ∨ q ∈ seen) :
    q ∈ visit nodes expand [] queue ↔ ∃ p ∈ queue, Reaches nodes succ p q := by
  constructor
  · refine reaches_of_visit (P := fun q => ∃ p ∈ queue, Reaches nodes succ p q) hexpand nofun
      (fun p hp => ⟨p, hp, .refl⟩) ?_
    rintro a b ⟨p, hp, hreach⟩ hnode hb
    exact ⟨p, hp, hreach.tail ⟨hnode, hb⟩⟩
  · rintro ⟨p, hp, hreach⟩
    induction hreach with
    | refl => exact subset_visit (.inr hp)
    | tail _ hedge ih => exact closed_visit hskip nofun ih hedge.1 hedge.2

/-- Nothing is seen twice. -/
theorem nodup_visit (h : seen.Nodup) : (visit nodes expand seen queue).Nodup := by
  have hsnoc : ∀ {seen : List α} {p : α}, seen.Nodup → p ∉ seen → (seen ++ [p]).Nodup := by
    intro seen p hseen hp
    refine List.nodup_append.mpr ⟨hseen, List.nodup_singleton p, ?_⟩
    rintro q hq _ hq' rfl
    exact hp (List.mem_singleton.mp hq' ▸ hq)
  induction seen, queue using visit.induct nodes expand with
  | case1 seen =>
    rw [visit]
    exact h
  | case2 seen p queue hseen ih =>
    rw [visit, if_pos hseen]
    exact ih h
  | case3 seen p queue hseen hnode ih =>
    rw [visit, if_neg hseen, if_pos hnode]
    exact ih (hsnoc h hseen)
  | case4 seen p queue hseen hnode ih =>
    rw [visit, if_neg hseen, if_neg hnode]
    exact ih (hsnoc h hseen)

/-! ## Runs that evaluate -/

/-- So many turns, which `decide` evaluates. -/
def within (nodes : List α) (expand : List α → α → List α) : Nat → List α → List α → Option (List α)
  | _, seen, [] => some seen
  | 0, _, _ :: _ => none
  | n + 1, seen, p :: queue =>
    if p ∈ seen then within nodes expand n seen queue
    else if p ∈ nodes then within nodes expand n (seen ++ [p]) (queue ++ expand (seen ++ [p]) p)
    else within nodes expand n (seen ++ [p]) queue

theorem visit_of_within {n : Nat} {result : List α} (h : within nodes expand n seen queue = some result) :
    visit nodes expand seen queue = result := by
  induction n generalizing seen queue with
  | zero =>
    cases queue with
    | nil =>
      rw [visit]
      exact Option.some.inj h
    | cons p queue => cases h
  | succ n ih =>
    cases queue with
    | nil =>
      rw [visit]
      exact Option.some.inj h
    | cons p queue =>
      rw [visit]
      rw [within] at h
      by_cases hseen : p ∈ seen
      · rw [if_pos hseen] at h ⊢
        exact ih h
      · rw [if_neg hseen] at h ⊢
        by_cases hnode : p ∈ nodes
        · rw [if_pos hnode] at h ⊢
          exact ih h
        · rw [if_neg hnode] at h ⊢
          exact ih h

/-- **The queue runs empty**: a node is looked into once. -/
theorem exists_within (nodes : List α) (expand : List α → α → List α) (seen queue : List α) :
    ∃ n, within nodes expand n seen queue = some (visit nodes expand seen queue) := by
  induction seen, queue using visit.induct nodes expand with
  | case1 seen => exact ⟨0, by rw [within, visit]⟩
  | case2 seen p queue hseen ih =>
    obtain ⟨n, hn⟩ := ih
    exact ⟨n + 1, by rw [within, visit, if_pos hseen, if_pos hseen, hn]⟩
  | case3 seen p queue hseen hnode ih =>
    obtain ⟨n, hn⟩ := ih
    exact ⟨n + 1, by rw [within, visit, if_neg hseen, if_neg hseen, if_pos hnode, if_pos hnode, hn]⟩
  | case4 seen p queue hseen hnode ih =>
    obtain ⟨n, hn⟩ := ih
    exact ⟨n + 1, by rw [within, visit, if_neg hseen, if_neg hseen, if_neg hnode, if_neg hnode, hn]⟩

end Worklist
