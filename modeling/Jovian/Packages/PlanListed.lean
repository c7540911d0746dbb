import Jovian.Packages.Plan

/-!
# PlanListed — what a plan requires and lists

* `tree_closed`, `required_by_index`, `required_by_copy` — the tree has what its packages need, and
  what is required is at least what any of them says.
* `planned_iff` — the plans that pass the run's checks.
* **`plan_never_downgrades`** — what is listed is not installed, or is newer in the index.
-/

namespace Jovian.Packages

variable {req : Request} {db : Index} {lib : Library} {p q : String}

/-! ## Sets -/

@[simp] theorem mem_unique {xs : List String} : p ∈ unique xs ↔ p ∈ xs := List.mem_eraseDups

@[simp] theorem mem_intersect {xs ys : List String} : p ∈ intersect xs ys ↔ p ∈ xs ∧ p ∈ ys := by
  simp [intersect]

@[simp] theorem mem_setdiff {xs ys : List String} : p ∈ setdiff xs ys ↔ p ∈ xs ∧ p ∉ ys := by
  simp [setdiff]

@[simp] theorem mem_union {xs ys : List String} : p ∈ union xs ys ↔ p ∈ xs ∨ p ∈ ys := by
  simp [union]

theorem mem_rownames_iff : p ∈ db.rownames ↔ ∃ r, db.row? p = some r := by
  rw [← Option.isSome_iff_exists, Index.row?, List.lookup_isSome_iff, Index.rownames, List.mem_map]
  constructor
  · rintro ⟨r, hr, rfl⟩
    exact ⟨r, hr, beq_self_eq_true _⟩
  · rintro ⟨r, hr, heq⟩
    exact ⟨r, hr, (eq_of_beq heq).symm⟩

/-! ## What is required -/

theorem packageVersion_empty_le (v : String) : packageVersion "" ≤ packageVersion v := by
  have hempty : packageVersion "" = [0] := by decide
  have hne : packageVersion v ≠ [] := by
    rw [packageVersion, Ne, List.map_eq_nil_iff]
    exact List.splitOnP_ne_nil _ _
  obtain ⟨n, rest, hv⟩ := List.exists_cons_of_ne_nil hne
  rw [hempty, hv]
  rcases Nat.eq_zero_or_pos n with rfl | hn
  · cases rest with
    | nil => exact le_rfl
    | cons m rest => exact le_of_lt (List.Lex.cons List.Lex.nil)
  · exact le_of_lt (List.Lex.rel hn)

theorem meets_iff {now need : Option String} : meets now need = true ↔
    ∃ v, now = some v ∧ ∀ r, need = some r → packageVersion r ≤ packageVersion v := by
  cases now with
  | none => simp [meets]
  | some v =>
    cases need with
    | none => simp [meets]
    | some r =>
      simp only [meets, decide_eq_true_eq, Option.some.injEq, exists_eq_left', forall_eq']
      refine or_iff_right_of_imp ?_
      rintro rfl
      exact packageVersion_empty_le v

/-- The version is there or above it. -/
def AtLeast (now : Option String) (version : String) : Prop :=
  ∃ v, now = some v ∧ packageVersion version ≤ packageVersion v

theorem raise_mono (tree : List String) (now : String → Option String) (r : String × Option String)
    {version : String} (h : AtLeast (now p) version) : AtLeast (raise tree now r p) version := by
  obtain ⟨dep, _ | needs⟩ := r
  · exact h
  · unfold raise
    dsimp only
    split
    · rename_i hraise
      by_cases hp : p = dep
      · subst hp
        obtain ⟨v, hv, hle⟩ := h
        rw [hv] at hraise
        rw [Function.update_self]
        exact ⟨needs, rfl, hle.trans (le_of_lt (of_decide_eq_true hraise.2))⟩
      · rwa [Function.update_of_ne hp]
    · exact h

theorem raise_self (tree : List String) (now : String → Option String) {version : String}
    (hp : p ∈ tree) : AtLeast (raise tree now (p, some version) p) version := by
  unfold raise
  dsimp only
  split
  · rw [Function.update_self]
    exact ⟨version, rfl, le_rfl⟩
  · rename_i hnot
    cases hnow : now p with
    | none => simp [hp, hnow] at hnot
    | some v =>
      refine ⟨v, rfl, ?_⟩
      simpa [hp, hnow] using hnot

theorem foldl_raise_mono (tree : List String) (rs : List (String × Option String))
    (now : String → Option String) {version : String} (h : AtLeast (now p) version) :
    AtLeast (rs.foldl (raise tree) now p) version := by
  induction rs generalizing now with
  | nil => exact h
  | cons r rs ih => exact ih _ (raise_mono tree now r h)

theorem foldl_raise (tree : List String) (rs : List (String × Option String))
    (now : String → Option String) {version : String} (hp : p ∈ tree) (h : (p, some version) ∈ rs) :
    AtLeast (rs.foldl (raise tree) now p) version := by
  induction rs generalizing now with
  | nil => cases h
  | cons r rs ih =>
    rcases List.mem_cons.mp h with rfl | h
    · exact foldl_raise_mono tree rs _ (raise_self tree now hp)
    · exact ih _ h

/-! ## The tree -/

/-- The packages of the index that `p`'s row needs. -/
def strong (db : Index) (p : String) : List String :=
  intersect ((strongFor p db).map Prod.fst) db.rownames

theorem mem_dependencies_iff {pkgs : List String} : q ∈ dependencies pkgs db ↔
    ∃ p, (p ∈ pkgs ∧ p ∈ db.rownames) ∧ Worklist.Reaches db.rownames (strong db) p q := by
  rw [dependencies, Worklist.mem_visit_iff (strong db)]
  · simp only [mem_intersect]
  · intro seen p q hq
    exact (mem_setdiff.mp hq).1
  · intro seen p q hq
    by_cases hseen : q ∈ seen
    · exact .inr hseen
    · exact .inl (mem_setdiff.mpr ⟨hq, hseen⟩)

theorem mem_tree_iff : p ∈ tree req db lib ↔
    (p ∈ wanted req lib ∨ p ∈ dependencies (wanted req lib) db) ∧ p ∉ lib.base ∧ p ∈ db.rownames := by
  simp [tree, and_assoc]

theorem dependencies_of_tree (hp : p ∈ tree req db lib) : p ∈ dependencies (wanted req lib) db := by
  obtain ⟨hp, -, hrow⟩ := mem_tree_iff.mp hp
  exact hp.elim (fun hp => mem_dependencies_iff.mpr ⟨p, ⟨hp, hrow⟩, .refl⟩) id

/-- The tree has what its packages need by the index, as far as the index has it. -/
theorem tree_closed (hp : p ∈ tree req db lib) {version : Option String}
    (hq : (q, version) ∈ strongFor p db) (hrow : q ∈ db.rownames) (hbase : q ∉ lib.base) :
    q ∈ tree req db lib := by
  obtain ⟨a, ha, hreach⟩ := mem_dependencies_iff.mp (dependencies_of_tree hp)
  have hedge : Worklist.Edge db.rownames (strong db) p q :=
    ⟨(mem_tree_iff.mp hp).2.2, mem_intersect.mpr ⟨List.mem_map_of_mem hq, hrow⟩⟩
  exact mem_tree_iff.mpr ⟨.inr (mem_dependencies_iff.mpr ⟨a, ha, hreach.tail hedge⟩), hbase, hrow⟩

theorem required_by_index (hp : p ∈ tree req db lib) {version : String}
    (hq : (q, some version) ∈ strongFor p db) (htree : q ∈ tree req db lib) :
    AtLeast (required req db lib q) version :=
  foldl_raise _ _ _ htree (List.mem_append_left _ (List.mem_flatMap.mpr ⟨p, hp, hq⟩))

theorem required_by_copy {r : Conflict} (hr : r ∈ conflicts lib req.pkg) {version : String}
    (hneeds : r.needs = some version) (htree : r.dep ∈ tree req db lib) :
    AtLeast (required req db lib r.dep) version := by
  refine foldl_raise _ _ _ htree (List.mem_append_right _ ?_)
  exact List.mem_map.mpr ⟨r, hr, by rw [hneeds]⟩

theorem required_by_request (hmin : req.minVersion ≠ "") :
    AtLeast (required req db lib req.pkg) req.minVersion :=
  foldl_raise_mono _ _ _ ⟨req.minVersion, if_pos ⟨rfl, hmin⟩, le_rfl⟩

/-! ## What is listed -/

@[simp] theorem plan_todo : (plan req db lib).todo = todo req db lib := by rw [plan]

@[simp] theorem plan_required : (plan req db lib).required = required req db lib := by rw [plan]

theorem planned_iff {pl : Plan} : planned req db lib = some pl ↔
    req.pkg ∈ db.rownames ∧ (∀ r ∈ conflicts lib req.pkg, r.dep ∈ db.rownames) ∧
      (∀ p ∈ todo req db lib,
        meets ((db.row? p).map Row.version) (required req db lib p) = true) ∧
      pl = plan req db lib := by
  unfold planned
  dsimp only
  by_cases hpkg : req.pkg ∈ db.rownames
  · rw [if_neg (not_not.mpr hpkg)]
    by_cases hstuck : ∀ r ∈ conflicts lib req.pkg, r.dep ∈ db.rownames
    · rw [if_neg (not_not.mpr (List.filter_eq_nil_iff.mpr fun r hr => by simp [hstuck r hr]))]
      by_cases hlate : ∀ p ∈ todo req db lib,
          meets ((db.row? p).map Row.version) (required req db lib p) = true
      · rw [if_neg (not_not.mpr (List.filter_eq_nil_iff.mpr fun p hp => by simp [plan, hlate p hp]))]
        simp only [Option.some.injEq, hpkg, true_and]
        exact ⟨fun h => ⟨hstuck, hlate, h.symm⟩, fun h => h.2.2.symm⟩
      · rw [if_pos]
        · simp [hlate]
        · intro hnil
          refine hlate fun p hp => ?_
          have hin := List.filter_eq_nil_iff.mp hnil p hp
          simpa [plan] using hin
    · rw [if_pos]
      · simp [hstuck]
      · intro hnil
        refine hstuck fun r hr => ?_
        have hin := List.filter_eq_nil_iff.mp hnil r hr
        simpa using hin
  · simp [hpkg]

theorem mem_todo (hp : p ∈ todo req db lib) : p ∈ tree req db lib ∧
    (meets (lib.versionOf p) (required req db lib p) = false ∨
      ∃ current r, lib.versionOf p = some current ∧ db.row? p = some r ∧
        packageVersion current < packageVersion r.version) := by
  unfold todo at hp
  dsimp only at hp
  have htodo : p ∈ (tree req db lib).filter (fun p => !meets (lib.versionOf p) (required req db lib p)) →
      p ∈ tree req db lib ∧ meets (lib.versionOf p) (required req db lib p) = false := by
    intro h
    obtain ⟨htree, hmeets⟩ := List.mem_filter.mp h
    exact ⟨htree, by simpa using hmeets⟩
  split at hp
  · rcases mem_union.mp hp with hp | hp
    · exact ⟨(htodo hp).1, .inl (htodo hp).2⟩
    · obtain ⟨htree, hnewer⟩ := List.mem_filter.mp hp
      refine ⟨htree, .inr ?_⟩
      rw [Bool.and_eq_true] at hnewer
      obtain ⟨-, hnewer⟩ := hnewer
      split at hnewer
      · rename_i current newest hcurrent hnewest
        obtain ⟨r, hr, rfl⟩ := Option.map_eq_some_iff.mp hnewest
        exact ⟨current, r, hcurrent, hr, of_decide_eq_true hnewer⟩
      · cases hnewer
  · exact ⟨(htodo hp).1, .inl (htodo hp).2⟩

theorem not_mem_todo (hp : p ∉ todo req db lib) (htree : p ∈ tree req db lib) :
    meets (lib.versionOf p) (required req db lib p) = true := by
  by_contra hmeets
  refine hp ?_
  have hmem : p ∈ (tree req db lib).filter (fun p => !meets (lib.versionOf p) (required req db lib p)) :=
    List.mem_filter.mpr ⟨htree, by simpa using hmeets⟩
  unfold todo
  dsimp only
  split
  · exact mem_union.mpr (.inl hmem)
  · exact hmem

theorem mem_optional (hp : p ∈ (plan req db lib).optional) :
    lib.versionOf p = none ∧ p ∉ tree req db lib ∧ p ∈ db.rownames := by
  obtain ⟨hp, hnone⟩ := List.mem_filter.mp hp
  simp only [optional, mem_setdiff, mem_intersect, List.mem_append, not_or] at hp
  exact ⟨Option.isNone_iff_eq_none.mp hnone, hp.2.1, hp.1.2⟩

theorem optional_of_without (h : req.withOptional = false) : optional req db lib = [] := by
  have hnone : dependencies [] db = [] := by
    rw [dependencies, Worklist.visit.eq_def]
    rfl
  simp only [optional, h, Bool.false_eq_true, if_false]
  rw [show intersect [] db.rownames = [] from rfl, hnone]
  rfl

/-! ## A copy that is kept -/

/-- It needs `d`, of which there is a newer copy that is kept, and `x`, which is nowhere. -/
def keptIndex : Index where
  rows := [("a", { version := "1.0", repository := "r", imports := some "d, x" }),
    ("d", { version := "1.0", repository := "r" }), ("e", { version := "1.0", repository := "r" })]

def keptLibrary : Library where
  copies := [("d", { version := "9.0", imports := some "e" })]
  base := ["stats"]

def keptRequest : Request where
  pkg := "a"
  withOptional := false

theorem kept_conflicts : conflicts keptLibrary "a" = [] := by
  have hloaded : loaded keptLibrary "a" = ["a"] :=
    (if_neg (by decide)).trans (Worklist.visit_of_within (n := 1) (by decide))
  rw [conflicts, hloaded]
  decide

theorem kept_tree : tree keptRequest keptIndex keptLibrary = ["a", "d"] := by
  have hwanted : wanted keptRequest keptLibrary = ["a"] := by
    rw [wanted, keptRequest, kept_conflicts]
    rfl
  have hdeps : dependencies ["a"] keptIndex = ["a", "d"] :=
    Worklist.visit_of_within (n := 2) (by decide)
  rw [tree, hwanted, hdeps]
  decide

theorem kept_todo : todo keptRequest keptIndex keptLibrary = ["a"] := by
  unfold todo required
  rw [kept_tree, show keptRequest.pkg = "a" from rfl, kept_conflicts]
  decide

theorem kept_planned : planned keptRequest keptIndex keptLibrary =
    some (plan keptRequest keptIndex keptLibrary) := by
  refine planned_iff.mpr ⟨by decide, ?_, ?_, rfl⟩
  · rw [show keptRequest.pkg = "a" from rfl, kept_conflicts]
    exact nofun
  · unfold required
    rw [kept_todo, kept_tree, show keptRequest.pkg = "a" from rfl, kept_conflicts]
    decide

/-! ## What is on the list -/

/-- **An install never downgrades**: what is listed is not installed, or is newer in the index. -/
theorem plan_never_downgrades {pl : Plan} (h : planned req db lib = some pl)
    (hp : p ∈ pl.todo ++ pl.optional) : lib.versionOf p = none ∨
      ∃ current r, lib.versionOf p = some current ∧ db.row? p = some r ∧
        packageVersion current < packageVersion r.version := by
  obtain ⟨-, -, havailable, rfl⟩ := planned_iff.mp h
  rcases List.mem_append.mp hp with hp | hp
  · obtain ⟨-, hmeets | hnewer⟩ := mem_todo hp
    · cases hcurrent : lib.versionOf p with
      | none => exact .inl rfl
      | some current =>
        -- older than required, which the index has
        refine .inr ?_
        obtain ⟨v, hv, hrequired⟩ := meets_iff.mp (havailable p hp)
        obtain ⟨r, hr, rfl⟩ := Option.map_eq_some_iff.mp hv
        refine ⟨current, r, rfl, hr, ?_⟩
        rw [hcurrent] at hmeets
        cases hneed : required req db lib p with
        | none =>
          rw [hneed] at hmeets
          cases hmeets
        | some need =>
          have hnot : ¬ packageVersion need ≤ packageVersion current := by
            intro hle
            have hyes : meets (some current) (required req db lib p) = true :=
              meets_iff.mpr ⟨current, rfl, fun r hr => by
                rw [hneed] at hr
                obtain rfl := Option.some.inj hr
                exact hle⟩
            rw [hmeets] at hyes
            cases hyes
          exact (not_le.mp hnot).trans_le (hrequired need hneed)
    · exact .inr hnewer
  · exact .inl (mem_optional hp).1

theorem plan_never_downgrades_kept : keptLibrary.versionOf "a" = none ∨
    ∃ current r, keptLibrary.versionOf "a" = some current ∧ keptIndex.row? "a" = some r ∧
      packageVersion current < packageVersion r.version :=
  plan_never_downgrades kept_planned (List.mem_append_left _ (by
    rw [plan_todo, kept_todo]
    exact List.mem_cons_self))

end Jovian.Packages
