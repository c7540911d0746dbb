import Jovian.Kernel.HistoryManager
import Mathlib.Data.List.Perm.Basic
import Mathlib.Data.List.Nodup

/-!
# HistorySearch — what a search of the history finds (`searchImpl`)

A pattern is made an expression: what is special in one is escaped, but for the backslash, and the
wildcards are replaced. The expression is looked for, it need not match all of an input; and
duplicates are entries that are the same, with their line numbers, one behind another.

* **`plain_regexPattern`** — of a pattern without a backslash, the expression is the pattern.
* **`searched_iff`** — when a search is answered with the newest entries that match.
-/

namespace Jovian.HistoryManager

/-! ## What is asked for -/

/-- `*` stands for any text, `?` for any character, and every other character for itself. -/
def glob : Text → Text → Bool
  | [], s => s.isEmpty
  | '*' :: p, s => s.tails.any (glob p)
  | '?' :: _, [] => false
  | '?' :: p, _ :: s => glob p s
  | _ :: _, [] => false
  | c :: p, d :: s => c = d && glob p s

/-- One entry of each input. -/
structure OneOfEach (all kept : List Shown) : Prop where
  sublist : kept.Sublist all
  distinct : (kept.map Shown.input).Nodup
  covers : ∀ e ∈ all, e.input ∈ kept.map Shown.input

/-- Without duplicates, if that is asked for. -/
def Without (isUnique : Bool) (all kept : List Shown) : Prop :=
  if isUnique then OneOfEach all kept else kept = all

def matching (history : List Entry) (pattern : Text) (output : Bool) : List Shown :=
  (history.map (Entry.shown output)).filter fun e => glob pattern e.input

def SearchRight (history : List Entry) (pattern : Text) (output : Bool) (n : Int) (isUnique : Bool)
    (reply : Option Reply) : Prop :=
  ∃ kept, Without isUnique (matching history pattern output) kept ∧
    reply = some (.history (newest n.toNat kept))

/-! ## The newest of what is found -/

section

variable {f g : Text → Bool} {isUnique : Bool} {l before after kept : List Shown} {e : Shown} {k n : Nat}

/-- What is found, without duplicates behind one another where that is asked for. -/
def foundOf (isUnique : Bool) (f : Text → Bool) (l : List Shown) : List Shown :=
  if isUnique then unique (l.filter fun e => f e.input) else l.filter fun e => f e.input

theorem unique_cons (e : Shown) (l : List Shown) :
    unique (e :: l) = unique l ∧ e ∈ unique l ∨ unique (e :: l) = e :: unique l := by
  rw [unique]
  cases unique l with
  | nil => exact .inr rfl
  | cons e' rest =>
    by_cases h : e = e'
    · exact .inl ⟨if_pos h, h ▸ List.mem_cons_self⟩
    · exact .inr (if_neg h)

theorem mem_unique : e ∈ unique l ↔ e ∈ l := by
  induction l with
  | nil => exact Iff.rfl
  | cons e' l ih =>
    rw [List.mem_cons, ← ih]
    rcases unique_cons e' l with ⟨heq, hmem⟩ | heq
    · rw [heq]
      exact ⟨.inr, fun h => h.elim (fun h => h ▸ hmem) id⟩
    · rw [heq, List.mem_cons]

theorem unique_sublist (l : List Shown) : (unique l).Sublist l := by
  induction l with
  | nil => exact .refl _
  | cons e l ih =>
    rcases unique_cons e l with ⟨heq, -⟩ | heq
    · rw [heq]
      exact ih.trans (List.sublist_cons_self e l)
    · rw [heq]
      exact ih.cons_cons e

theorem mem_foundOf : e ∈ foundOf isUnique f l ↔ e ∈ l ∧ f e.input = true := by
  unfold foundOf
  split
  · rw [mem_unique, List.mem_filter]
  · rw [List.mem_filter]

theorem foundOf_sublist : (foundOf isUnique f l).Sublist (l.filter fun e => f e.input) := by
  unfold foundOf
  split
  · exact unique_sublist _
  · exact .refl _

/-- One entry more: it is found, or nothing more is. -/
theorem foundOf_cons (isUnique : Bool) (f : Text → Bool) (e : Shown) (l : List Shown) :
    foundOf isUnique f (e :: l) = foundOf isUnique f l ∨
      foundOf isUnique f (e :: l) = e :: foundOf isUnique f l := by
  unfold foundOf
  cases hf : f e.input with
  | false => simp [hf]
  | true =>
    rw [List.filter_cons, if_pos hf]
    split
    · exact (unique_cons _ _).imp_left And.left
    · exact .inr rfl

theorem foundOf_suffix : foundOf isUnique f after <:+ foundOf isUnique f (before ++ after) := by
  induction before with
  | nil => exact List.suffix_rfl
  | cons e before ih =>
    rw [List.cons_append]
    rcases foundOf_cons isUnique f e (before ++ after) with h | h
    · rwa [h]
    · rw [h]
      exact ih.trans (List.suffix_cons _ _)

theorem newest_of_suffix {α : Type} {a b : List α} (h : a <:+ b) : newest a.length b = a := by
  obtain ⟨c, rfl⟩ := h
  rw [newest, List.length_append, Nat.add_sub_cancel, List.drop_left]

theorem newest_of_le {α : Type} {a : List α} (h : a.length ≤ n) : newest n a = a := by
  rw [newest, Nat.sub_eq_zero_of_le h, List.drop_zero]

/-- **The entries that are the newest found**, and nothing that could be left out at their front. -/
theorem exists_newest (isUnique : Bool) (f : Text → Bool) (l : List Shown) {k : Nat}
    (hk : k ≤ (foundOf isUnique f l).length) : ∃ before after, l = before ++ after ∧
      (foundOf isUnique f after).length = k ∧
      ∀ e rest, after = e :: rest → (foundOf isUnique f rest).length < k := by
  induction l with
  | nil =>
    refine ⟨[], [], rfl, ?_, fun e rest h => by cases h⟩
    rw [show foundOf isUnique f [] = [] by cases isUnique <;> rfl] at hk ⊢
    exact (Nat.le_zero.mp hk).symm
  | cons e l ih =>
    by_cases hrest : k ≤ (foundOf isUnique f l).length
    · obtain ⟨before, after, rfl, hafter⟩ := ih hrest
      exact ⟨e :: before, after, rfl, hafter⟩
    · -- without the first entry they are fewer
      refine ⟨[], e :: l, rfl, ?_, fun e' rest h => ?_⟩
      · rcases foundOf_cons isUnique f e l with h | h
        · exact absurd (h ▸ hk) hrest
        · rw [h, List.length_cons] at hk ⊢
          omega
      · obtain ⟨-, rfl⟩ := List.cons.inj h
        exact Nat.lt_of_not_le hrest

/-- From somewhere on, what is found matches, and is as many as are kept; what matches is found, or
its input has come before; and it is all that is asked for. -/
structure Agrees (isUnique : Bool) (f g : Text → Bool) (k n : Nat) (before after : List Shown) :
    Prop where
  found : ∀ e ∈ after, f e.input = true → g e.input = true
  number : (foundOf isUnique f after).length = k
  distinct : isUnique = true → ((foundOf isUnique f after).map Shown.input).Nodup
  all : n = k ∧ (∀ e ∈ after, g e.input = true →
        f e.input = true ∨ isUnique = true ∧ ∃ e' ∈ before, e'.input = e.input) ∨
    k < n ∧ (∀ e ∈ after, g e.input = true → f e.input = true) ∧
      ∀ e ∈ before, g e.input = true →
        isUnique = true ∧ ∃ e' ∈ after, f e'.input = true ∧ e'.input = e.input

/-- One of each input, the later ones first. -/
theorem exists_oneOfEach (l : List Shown) : ∃ kept, OneOfEach l kept := by
  induction l with
  | nil => exact ⟨[], .refl _, List.nodup_nil, by simp⟩
  | cons e l ih =>
    obtain ⟨kept, h⟩ := ih
    by_cases he : e.input ∈ kept.map Shown.input
    · exact ⟨kept, h.sublist.trans (List.sublist_cons_self e l), h.distinct,
        List.forall_mem_cons.mpr ⟨he, h.covers⟩⟩
    · refine ⟨e :: kept, h.sublist.cons_cons e, List.nodup_cons.mpr ⟨he, h.distinct⟩, ?_⟩
      refine List.forall_mem_cons.mpr ⟨List.mem_cons_self, fun e' he' => ?_⟩
      exact List.mem_cons_of_mem _ (h.covers e' he')

theorem filter_sublist_filter {α : Type} {p q : α → Bool} {l : List α}
    (h : ∀ a ∈ l, p a = true → q a = true) : (l.filter p).Sublist (l.filter q) := by
  have hboth : l.filter p = (l.filter q).filter p := by
    rw [List.filter_filter]
    refine List.filter_congr fun a ha => ?_
    cases hp : p a with
    | false => rfl
    | true => rw [h a ha hp]; rfl
  rw [hboth]
  exact List.filter_sublist

/-- What is found is the end of a list with one of each input. -/
theorem Agrees.oneOfEach (h : Agrees true f g k k before after) :
    ∃ kept, OneOfEach ((before ++ after).filter fun e => g e.input) (kept ++ foundOf true f after) := by
  obtain ⟨-, hall⟩ | ⟨hlt, -⟩ := h.all
  · -- in front of what is found, one of each input that is not found
    obtain ⟨kept, hkept⟩ := exists_oneOfEach ((before.filter fun e => g e.input).filter fun e =>
      e.input ∉ (foundOf true f after).map Shown.input)
    have hbefore : ∀ e ∈ before, g e.input = true →
        e.input ∈ (kept ++ foundOf true f after).map Shown.input := by
      intro e he hg
      rw [List.map_append, List.mem_append]
      by_cases hinput : e.input ∈ (foundOf true f after).map Shown.input
      · exact .inr hinput
      · refine .inl (hkept.covers e ?_)
        exact List.mem_filter.mpr ⟨List.mem_filter.mpr ⟨he, hg⟩, decide_eq_true hinput⟩
    refine ⟨kept, ?_, ?_, fun e he => ?_⟩
    · rw [List.filter_append]
      exact (hkept.sublist.trans List.filter_sublist).append
        (foundOf_sublist.trans (filter_sublist_filter h.found))
    · rw [List.map_append, List.nodup_append]
      refine ⟨hkept.distinct, h.distinct rfl, ?_⟩
      rintro a ha b hb rfl
      obtain ⟨e, he, rfl⟩ := List.mem_map.mp ha
      exact of_decide_eq_true (List.mem_filter.mp (hkept.sublist.subset he)).2 hb
    · obtain ⟨he, hg⟩ := List.mem_filter.mp he
      rcases List.mem_append.mp he with he | he
      · exact hbefore e he hg
      · rcases hall e he hg with hf | ⟨-, e', he', heq⟩
        · rw [List.map_append]
          exact List.mem_append_right _ (List.mem_map_of_mem (mem_foundOf.mpr ⟨he, hf⟩))
        · rw [← heq] at hg ⊢
          exact hbefore e' he' hg
  · exact absurd hlt (Nat.lt_irrefl k)

theorem filter_eq_of_agrees (hfound : ∀ e ∈ after, f e.input = true → g e.input = true)
    (hall : ∀ e ∈ after, g e.input = true → f e.input = true) :
    (after.filter fun e => g e.input) = after.filter fun e => f e.input :=
  List.filter_congr fun e he => Bool.eq_iff_iff.mpr ⟨hall e he, hfound e he⟩

theorem Agrees.newest (h : Agrees isUnique f g k n before after) :
    ∃ kept, Without isUnique ((before ++ after).filter fun e => g e.input) kept ∧
      HistoryManager.newest k (foundOf isUnique f (before ++ after)) =
        HistoryManager.newest n kept := by
  have hk : HistoryManager.newest k (foundOf isUnique f (before ++ after)) =
      foundOf isUnique f after := by
    rw [← h.number]
    exact newest_of_suffix foundOf_suffix
  rw [hk]
  cases isUnique with
  | true =>
    rcases h.all with ⟨rfl, -⟩ | ⟨hlt, hall, hbefore⟩
    · obtain ⟨kept, hkept⟩ := h.oneOfEach
      refine ⟨_, hkept, ?_⟩
      conv_lhs => rw [← newest_of_suffix (List.suffix_append kept (foundOf true f after)), h.number]
    · refine ⟨foundOf true f after, ⟨?_, h.distinct rfl, fun e he => ?_⟩, ?_⟩
      · rw [List.filter_append]
        exact (foundOf_sublist.trans (filter_sublist_filter h.found)).trans
          (List.sublist_append_right _ _)
      · obtain ⟨he, hg⟩ := List.mem_filter.mp he
        rcases List.mem_append.mp he with he | he
        · obtain ⟨-, e', he', hf, heq⟩ := hbefore e he hg
          exact heq ▸ List.mem_map_of_mem (mem_foundOf.mpr ⟨he', hf⟩)
        · exact List.mem_map_of_mem (mem_foundOf.mpr ⟨he, hall e he hg⟩)
      · exact (newest_of_le (h.number ▸ Nat.le_of_lt hlt)).symm
  | false =>
    refine ⟨_, rfl, ?_⟩
    have hlength : (after.filter fun e => f e.input).length = k := h.number
    rw [List.filter_append]
    rcases h.all with ⟨rfl, hall⟩ | ⟨hlt, hall, hbefore⟩
    · have heq := filter_eq_of_agrees h.found fun e he hg =>
        (hall e he hg).resolve_right fun h => Bool.false_ne_true h.1
      rw [heq]
      conv_rhs => rw [← hlength]
      exact (newest_of_suffix (List.suffix_append _ _)).symm
    · have hnone : (before.filter fun e => g e.input) = [] := by
        rw [List.filter_eq_nil_iff]
        exact fun e he hg => Bool.false_ne_true (hbefore e he hg).1
      rw [hnone, List.nil_append, filter_eq_of_agrees h.found hall]
      exact (newest_of_le (hlength ▸ Nat.le_of_lt hlt)).symm

/-! ## What the newest found must be -/

theorem Without.subset {all : List Shown} (h : Without isUnique all kept) : kept ⊆ all := by
  cases isUnique with
  | true => exact h.sublist.subset
  | false =>
    obtain rfl : kept = all := h
    exact List.Subset.refl _

theorem Without.covers {all : List Shown} (h : Without isUnique all kept) (he : e ∈ all) :
    ∃ d ∈ kept, d.input = e.input := by
  cases isUnique with
  | true => exact List.mem_map.mp (h.covers e he)
  | false =>
    obtain rfl : kept = all := h
    exact ⟨e, he, rfl⟩

theorem Without.sublist {all : List Shown} (h : Without isUnique all kept) : kept.Sublist all := by
  cases isUnique with
  | true => exact OneOfEach.sublist h
  | false =>
    obtain rfl : kept = all := h
    exact .refl _

theorem Without.distinct {all : List Shown} (h : Without isUnique all kept) (hunique : isUnique = true) :
    (kept.map Shown.input).Nodup := by
  obtain rfl := hunique
  exact OneOfEach.distinct h

/-- Entries of the rest that are found there are no more than are found there. -/
theorem length_le_foundOf {es rest : List Shown} (hsub : es.Sublist (rest.filter fun e => g e.input))
    (hfound : ∀ e ∈ es, f e.input = true)
    (hdistinct : isUnique = true → (es.map Shown.input).Nodup) :
    es.length ≤ (foundOf isUnique f rest).length := by
  cases isUnique with
  | true =>
    refine (List.subperm_of_subset (List.Nodup.of_map _ (hdistinct rfl)) fun e he => ?_).length_le
    exact mem_foundOf.mpr ⟨(List.mem_filter.mp (hsub.subset he)).1, hfound e he⟩
  | false =>
    have hes : (es.filter fun e => f e.input) = es := List.filter_eq_self.mpr hfound
    have hle : (es.filter fun e => f e.input).Sublist (rest.filter fun e => f e.input) :=
      (hsub.trans List.filter_sublist).filter _
    rw [hes] at hle
    exact hle.length_le

/-- An entry more in front of what is found does not fit in what comes from there on. -/
theorem not_sublist_of_least {y : Shown} {c : List Shown}
    (hleast : ∀ e rest, after = e :: rest →
      (foundOf isUnique f rest).length < (foundOf isUnique f after).length)
    (hdistinct : isUnique = true → ((foundOf isUnique f after).map Shown.input).Nodup) :
    ¬ (y :: (c ++ foundOf isUnique f after)).Sublist (after.filter fun e => g e.input) := by
  intro hsub
  cases hafter : after with
  | nil =>
    rw [hafter] at hsub
    exact List.cons_ne_nil _ _ (List.sublist_nil.mp hsub)
  | cons e rest =>
    -- the entry more takes the first place, and the rest has all that is found
    have hrest : (foundOf isUnique f after).Sublist (rest.filter fun e => g e.input) := by
      refine (List.sublist_append_right c _).trans ?_
      rw [hafter, List.filter_cons] at hsub
      rw [hafter]
      split at hsub
      · exact hsub.tail
      · exact List.sublist_of_cons_sublist hsub
    have hlength := length_le_foundOf hrest (fun e he => (mem_foundOf.mp he).2) hdistinct
    exact absurd (hleast e rest hafter) (Nat.not_lt_of_le hlength)

/-- What was left out in front of what is found comes before. -/
theorem mem_before {front : List Shown} {d : Shown}
    (hsub : (front ++ foundOf isUnique f after).Sublist
      ((before.filter fun e => g e.input) ++ after.filter fun e => g e.input))
    (hleast : ∀ e rest, after = e :: rest →
      (foundOf isUnique f rest).length < (foundOf isUnique f after).length)
    (hdistinct : isUnique = true → ((foundOf isUnique f after).map Shown.input).Nodup)
    (hd : d ∈ front) : d ∈ before := by
  obtain ⟨l₁, l₂, heq, h₁, h₂⟩ := List.sublist_append_iff.mp hsub
  have hmem : d ∈ l₁ := by
    rcases List.append_eq_append_iff.mp heq with ⟨c, rfl, -⟩ | ⟨c, rfl, rfl⟩
    · exact List.mem_append_left _ hd
    · cases c with
      | nil => rwa [List.append_nil] at hd
      | cons y c => exact absurd h₂ (not_sublist_of_least hleast hdistinct)
  exact (List.mem_filter.mp (h₁.subset hmem)).1

/-- Without leaving anything out, all that matches from there on is found. -/
theorem found_of_all {front : List Shown}
    (heq : front ++ foundOf false f after =
      (before.filter fun e => g e.input) ++ after.filter fun e => g e.input)
    (hleast : ∀ e rest, after = e :: rest →
      (foundOf false f rest).length < (foundOf false f after).length) :
    ∀ e ∈ after, g e.input = true → f e.input = true := by
  intro e he hg
  have hmem : e ∈ after.filter fun e => g e.input := List.mem_filter.mpr ⟨he, hg⟩
  refine (mem_foundOf.mp (?_ : e ∈ foundOf false f after)).2
  rcases List.append_eq_append_iff.mp heq with ⟨c, -, hfound⟩ | ⟨c, -, hmatching⟩
  · rw [hfound]
    exact List.mem_append_right _ hmem
  · cases c with
    | nil => rwa [hmatching] at hmem
    | cons y c =>
      refine absurd (hmatching ▸ .refl _) (not_sublist_of_least (g := g) (y := y) (c := c) hleast ?_)
      exact fun h => absurd h Bool.false_ne_true

theorem exists_agrees (hk : k ≤ (foundOf isUnique f l).length)
    (hkept : Without isUnique (l.filter fun e => g e.input) kept)
    (h : newest k (foundOf isUnique f l) = newest n kept) :
    ∃ before after, l = before ++ after ∧ Agrees isUnique f g k n before after := by
  obtain ⟨before, after, rfl, hnumber, hleast⟩ := exists_newest isUnique f l hk
  have hfound : foundOf isUnique f after = newest n kept := by
    rw [← h, ← hnumber]
    exact (newest_of_suffix foundOf_suffix).symm
  obtain ⟨front, hfront⟩ : foundOf isUnique f after <:+ kept := by
    rw [hfound]
    exact List.drop_suffix _ _
  have hlength : k = min n kept.length := by
    rw [← hnumber, hfound, length_newest]
  have hdistinct : isUnique = true → ((foundOf isUnique f after).map Shown.input).Nodup := by
    intro hunique
    have hall := hkept.distinct hunique
    rw [← hfront, List.map_append, List.nodup_append] at hall
    exact hall.2.1
  have hmatch : ∀ e ∈ after, f e.input = true → g e.input = true := by
    intro e he hf
    have hmem : e ∈ kept := hfront ▸ List.mem_append_right _ (mem_foundOf.mpr ⟨he, hf⟩)
    exact (List.mem_filter.mp (hkept.subset hmem)).2
  refine ⟨before, after, rfl, hmatch, hnumber, hdistinct, ?_⟩
  rw [← hnumber] at hleast
  rw [List.filter_append] at hkept
  by_cases hn : n = k
  · refine .inl ⟨hn, fun e he hg => ?_⟩
    cases isUnique with
    | true =>
      obtain ⟨d, hd, hinput⟩ := hkept.covers
        (List.mem_append_right _ (List.mem_filter.mpr ⟨he, hg⟩))
      rw [← hfront] at hd
      rcases List.mem_append.mp hd with hd | hd
      · exact .inr ⟨rfl, d, mem_before (hfront ▸ hkept.sublist) hleast hdistinct hd, hinput⟩
      · exact .inl (hinput ▸ (mem_foundOf.mp hd).2)
    | false => exact .inl (found_of_all (hfront.trans hkept) hleast e he hg)
  · -- fewer than are asked for: they are all
    obtain rfl : front = [] := by
      have hsum := congrArg List.length hfront
      rw [List.length_append, hnumber] at hsum
      exact List.length_eq_zero_iff.mp (by omega)
    rw [List.nil_append] at hfront
    have hcovered : ∀ e ∈ before ++ after, g e.input = true →
        ∃ d ∈ after, f d.input = true ∧ d.input = e.input := by
      intro e he hg
      obtain ⟨d, hd, hinput⟩ := hkept.covers (List.filter_append .. ▸ List.mem_filter.mpr ⟨he, hg⟩)
      obtain ⟨hd, hf⟩ := mem_foundOf.mp (hfront ▸ hd)
      exact ⟨d, hd, hf, hinput⟩
    refine .inr ⟨by omega, fun e he hg => ?_, fun e he hg => ⟨?_, ?_⟩⟩
    · obtain ⟨d, -, hf, hinput⟩ := hcovered e (List.mem_append_right _ he) hg
      rwa [hinput] at hf
    · -- an entry before that matches would be one more than are kept
      by_contra hall
      obtain rfl : isUnique = false := by simpa using hall
      have hlengths : kept.length = _ := congrArg List.length hkept
      have hle := (filter_sublist_filter hmatch).length_le
      rw [← hfront, List.length_append] at hlengths
      have hnone : (before.filter fun e => g e.input) = [] :=
        List.length_eq_zero_iff.mp (by
          have hnumber : (after.filter fun e => f e.input).length =
              (foundOf false f after).length := rfl
          omega)
      rw [List.filter_eq_nil_iff] at hnone
      exact hnone e he hg
    · exact hcovered e (List.mem_append_left _ he) hg

end

/-! ## Patterns without a backslash -/

open Regex (Piece compile plain)

/-- A byte of a pattern. -/
def pieceOf (b : UInt8) : Piece :=
  if b = 42 then .anyMany else if b = 63 then .any else .byte b

theorem regexPattern_cons (b : UInt8) (p : Regex.Bytes) :
    regexPattern (b :: p) = regexPattern [b] ++ regexPattern p := by
  simp only [regexPattern, sanitized, List.flatMap_cons, List.flatMap_nil, List.append_nil,
    List.map_append, List.flatMap_append]

theorem special_facts : ∀ b ∈ specialBytes, b ≠ 42 ∧ b ≠ 63 ∧ Regex.wordByte b = false := by
  rw [← List.forall_iff_forall_mem]
  decide

theorem syntax_facts :
    ∀ b ∈ Regex.syntaxBytes, b ∈ specialBytes ∨ b = 92 ∨ b = 42 ∨ b = 63 := by
  rw [← List.forall_iff_forall_mem]
  decide

theorem regexPattern_special {b : UInt8} (h : b ∈ specialBytes) : regexPattern [b] = [92, b] := by
  obtain ⟨h42, h63, -⟩ := special_facts b h
  simp [regexPattern, sanitized, h, h42, h63]

theorem regexPattern_of_not_special {b : UInt8} (h : b ∉ specialBytes) :
    regexPattern [b] = if b = 42 then [46, 42] else if b = 63 then [46] else [b] := by
  simp only [regexPattern, sanitized, List.flatMap_cons, List.flatMap_nil, List.append_nil, h,
    if_false, List.map_cons, List.map_nil]
  by_cases h63 : b = 63
  · subst h63
    rfl
  · rw [if_neg h63, if_neg h63]

/-- No expression made of a pattern begins with a star. -/
theorem regexPattern_ne_star {p : Regex.Bytes} {rest : Regex.Bytes} :
    regexPattern p ≠ 42 :: rest := by
  cases p with
  | nil =>
    intro h
    cases h
  | cons b p =>
    rw [regexPattern_cons]
    by_cases hspecial : b ∈ specialBytes
    · rw [regexPattern_special hspecial]
      simp
    · rw [regexPattern_of_not_special hspecial]
      split
      · simp
      · split
        · simp
        · next h42 _ => simp [h42]

/-- **A pattern without a backslash** is text with wildcards. -/
theorem plain_regexPattern {p : Regex.Bytes} (h : (92 : UInt8) ∉ p) :
    plain (regexPattern p) = some (p.map pieceOf) := by
  induction p with
  | nil => rfl
  | cons b p ih =>
    rw [List.mem_cons, not_or] at h
    obtain ⟨hb, hp⟩ := h
    have hrest := ih hp
    rw [regexPattern_cons, List.map_cons]
    by_cases hspecial : b ∈ specialBytes
    · -- escaped, and no class: what is escaped is no word character
      obtain ⟨h42, h63, hword⟩ := special_facts b hspecial
      rw [regexPattern_special hspecial, pieceOf, if_neg h42, if_neg h63]
      show plain (92 :: b :: regexPattern p) = _
      rw [plain, hword, hrest]
      rfl
    · rw [regexPattern_of_not_special hspecial, pieceOf]
      by_cases h42 : b = 42
      · rw [if_pos h42, if_pos h42]
        show plain (46 :: 42 :: regexPattern p) = _
        rw [plain, hrest]
        rfl
      · rw [if_neg h42, if_neg h42]
        by_cases h63 : b = 63
        · -- the period is not repeated
          rw [if_pos h63, if_pos h63]
          show plain (46 :: regexPattern p) = _
          rw [plain, hrest]
          · rfl
          · intro rest hstar
            exact regexPattern_ne_star hstar
        · rw [if_neg h63, if_neg h63]
          show plain (b :: regexPattern p) = _
          have hsyntax : b ∉ Regex.syntaxBytes := by
            intro hmem
            rcases syntax_facts b hmem with h | h | h | h
            · exact hspecial h
            · exact hb h.symm
            · exact h42 h
            · exact h63 h
          rw [Regex.plain_byte hsyntax, hrest]
          rfl

/-! ## A search -/

/-- How many entries `cleanHistory` leaves of so many. -/
def cleanKeeps (size : Nat) (n : Int) : Option Nat :=
  let nbErase := intOf size - n
  if 0 < nbErase then (next size nbErase).map fun k => size - k else some size

/-- What a pattern finds in an input: without a backslash, it looks for itself, in bytes, anywhere
within a line, up to the first null character. -/
def foundBy (engine : Regex.Bytes → Option (Regex.Bytes → Bool)) (pattern : Text) :
    Option (Text → Bool) :=
  if 92 ∈ bytes pattern then
    (compile engine (regexPattern (bytes pattern))).map fun finds input => finds (cStr (bytes input))
  else some fun input => Regex.search ((bytes pattern).map pieceOf) (cStr (bytes input))

/-- The expression compiles, and the entries that are kept of those found are the newest matching. -/
def SearchFits (engine : Regex.Bytes → Option (Regex.Bytes → Bool)) (history : List Entry)
    (pattern : Text) (output : Bool) (n : Int) (isUnique : Bool) : Prop :=
  ∃ count finds k before after, toInt n = some count ∧ foundBy engine pattern = some finds ∧
    history.map (Entry.shown output) = before ++ after ∧
    cleanKeeps (foundOf isUnique finds (before ++ after)).length count = some k ∧
    Agrees isUnique finds (glob pattern) k n.toNat before after

def SearchedRight (history : List Entry) (content : Content) (reply : Option Reply) : Prop :=
  if content.histAccessType.getD "tail" = "search" then
    SearchRight history (content.pattern.getD ['*']) (content.output.getD false) (content.n.getD 10)
      (content.unique.getD false) reply
  else True

def SearchedFits (engine : Regex.Bytes → Option (Regex.Bytes → Bool)) (history : List Entry)
    (content : Content) : Prop :=
  if content.histAccessType.getD "tail" = "search" then
    SearchFits engine history (content.pattern.getD ['*']) (content.output.getD false)
      (content.n.getD 10) (content.unique.getD false)
  else True

section

variable {engine : Regex.Bytes → Option (Regex.Bytes → Bool)} {history : List Entry} {pattern : Text}
  {output isUnique : Bool} {n : Int}

theorem foundBy_eq (engine : Regex.Bytes → Option (Regex.Bytes → Bool)) (pattern : Text) :
    foundBy engine pattern = (compile engine (regexPattern (bytes pattern))).map
      fun finds input => finds (cStr (bytes input)) := by
  unfold foundBy
  by_cases h : (92 : UInt8) ∈ bytes pattern
  · rw [if_pos h]
  · rw [if_neg h, compile, plain_regexPattern h]
    rfl

theorem cleanKeeps_le {size k : Nat} {n : Int} (h : cleanKeeps size n = some k) : k ≤ size := by
  simp only [cleanKeeps] at h
  split at h
  · obtain ⟨j, -, rfl⟩ := Option.map_eq_some_iff.mp h
    exact Nat.sub_le _ _
  · exact Nat.le_of_eq (Option.some.inj h).symm

theorem cleanHistory_eq (f : Text → Bool) (l : List Shown) (n : Int) :
    cleanHistory (l.filter fun e => f e.input) n isUnique =
      (cleanKeeps (foundOf isUnique f l).length n).map fun k =>
        newest k (foundOf isUnique f l) := by
  have hfound : (if isUnique then unique (l.filter fun e => f e.input)
      else l.filter fun e => f e.input) = foundOf isUnique f l := rfl
  unfold cleanHistory cleanKeeps
  simp only [hfound]
  split
  · cases hnext : next (foundOf isUnique f l).length
        (intOf (foundOf isUnique f l).length - n) with
    | none => rfl
    | some k =>
      have hk := (next_eq_some.mp hnext).2
      simp only [Option.map_some, newest, Nat.sub_sub_self hk]
  · simp only [Option.map_some, newest, Nat.sub_self, List.drop_zero]

theorem searchImpl_eq (history : List Entry) (n : Int) :
    searchImpl history engine pattern output n isUnique =
      (foundBy engine pattern).bind fun finds =>
        (cleanKeeps (foundOf isUnique finds (history.map (Entry.shown output))).length n).map fun k =>
          .history (newest k (foundOf isUnique finds (history.map (Entry.shown output)))) := by
  rw [foundBy_eq, searchImpl]
  cases compile engine (regexPattern (bytes pattern)) with
  | none => rfl
  | some finds =>
    have hfilter : (history.filter fun e => finds (cStr (bytes e.input))).map (Entry.shown output) =
        (history.map (Entry.shown output)).filter fun e => finds (cStr (bytes e.input)) := by
      rw [List.filter_map]
      rfl
    rw [Option.bind_some, Option.map_some, Option.bind_some, hfilter,
      cleanHistory_eq fun input => finds (cStr (bytes input)), Option.map_map]
    rfl

theorem searchRight_iff : SearchRight history pattern output n isUnique
    ((toInt n).bind fun n => searchImpl history engine pattern output n isUnique) ↔
      SearchFits engine history pattern output n isUnique := by
  unfold SearchRight SearchFits matching
  constructor
  · rintro ⟨kept, hkept, hreply⟩
    obtain ⟨count, hcount, himpl⟩ := Option.bind_eq_some_iff.mp hreply
    rw [searchImpl_eq] at himpl
    obtain ⟨finds, hfinds, hmap⟩ := Option.bind_eq_some_iff.mp himpl
    obtain ⟨k, hk, heq⟩ := Option.map_eq_some_iff.mp hmap
    obtain ⟨before, after, hsplit, hagrees⟩ :=
      exists_agrees (cleanKeeps_le hk) hkept (Reply.history.inj heq)
    exact ⟨count, finds, k, before, after, hcount, hfinds, hsplit, hsplit ▸ hk, hagrees⟩
  · rintro ⟨count, finds, k, before, after, hcount, hfinds, hsplit, hk, hagrees⟩
    obtain ⟨kept, hkept, heq⟩ := hagrees.newest
    refine ⟨kept, hsplit ▸ hkept, ?_⟩
    rw [hcount, Option.bind_some, searchImpl_eq, hfinds, Option.bind_some, hsplit, hk, Option.map_some,
      heq]

/-- **A search finds the newest entries that match** exactly when what the pattern finds from some
entry on is what matches it there, and is as much as is kept. -/
theorem searched_iff (engine : Regex.Bytes → Option (Regex.Bytes → Bool)) (history : List Entry)
    (content : Content) : SearchedRight history content (processRequest history engine content) ↔
      SearchedFits engine history content := by
  unfold SearchedRight SearchedFits processRequest
  by_cases hsearch : content.histAccessType.getD "tail" = "search"
  · simp only [hsearch, if_true, String.reduceEq, if_false]
    exact searchRight_iff
  · simp only [hsearch, if_false]

end

/-! ## Duplicates, a pattern that is found elsewhere, and a backslash -/

/-- A cell that ran twice, with another one in between. -/
def ranTwice : List Entry :=
  [{ session := 0, line := 1, input := ['x'], output := [] },
    { session := 0, line := 2, input := ['y', 'x'], output := [] },
    { session := 0, line := 3, input := ['x'], output := [] }]

/-- **Three searches**: the cell that ran twice is found twice, `x` is found in `yx`, and a backslash
throws. -/
theorem searches_wrong :
    (¬ SearchedRight ranTwice { histAccessType := some "search", unique := some true }
      (processRequest ranTwice (fun _ => none)
        { histAccessType := some "search", unique := some true })) ∧
    (¬ SearchedRight ranTwice { histAccessType := some "search", pattern := some ['x'] }
      (processRequest ranTwice (fun _ => none)
        { histAccessType := some "search", pattern := some ['x'] })) ∧
    ¬ SearchedRight ranTwice { histAccessType := some "search", pattern := some ['\\'] }
      (processRequest ranTwice (fun _ => none)
        { histAccessType := some "search", pattern := some ['\\'] }) := by
  refine ⟨?_, ?_, ?_⟩
  · rintro ⟨kept, hkept, hreply⟩
    have hsub : ((newest 10 kept).map Shown.input).Sublist (kept.map Shown.input) :=
      (List.drop_sublist _ _).map _
    have hall : newest 10 kept = ranTwice.map (Entry.shown false) := by
      have hevaluated : processRequest ranTwice (fun _ => none)
          { histAccessType := some "search", unique := some true } =
            some (.history (ranTwice.map (Entry.shown false))) := by
        decide
      exact (Reply.history.inj (Option.some.inj (hevaluated.symm.trans hreply))).symm
    rw [hall] at hsub
    exact absurd (hsub.nodup (OneOfEach.distinct hkept)) (by decide)
  · rintro ⟨kept, rfl, hreply⟩
    exact absurd hreply (by decide)
  · rintro ⟨kept, hkept, hreply⟩
    cases hreply

end Jovian.HistoryManager
