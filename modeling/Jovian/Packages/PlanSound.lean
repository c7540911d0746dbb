import Jovian.Packages.PlanListed

/-!
# PlanSound — what an install leaves behind

* `plan_meets_required` — once all is installed, each package of the tree is in the version required.
* **`plan_sound`** — no conflict is left that the plan could know: what is left is required by a
  package that was not loaded before, or is not in the index, and the run then ends with an error.
-/

namespace Jovian.Packages

variable {req : Request} {db : Index} {lib : Library} {p q : String}

/-! ## What is installed then -/

theorem lookup_filterMap {β : Type} (f : String → Option β) (ps : List String) (p : String) :
    (ps.filterMap fun p => (f p).map fun r => (p, r)).lookup p = if p ∈ ps then f p else none := by
  induction ps with
  | nil => rfl
  | cons a ps ih =>
    by_cases heq : p = a
    · subst heq
      cases hf : f p with
      | none =>
        rw [List.filterMap_cons_none (by rw [hf]; rfl), ih, hf, ite_self, ite_self]
      | some r =>
        rw [List.filterMap_cons_some (by rw [hf]; rfl), List.lookup_cons_self, if_pos List.mem_cons_self]
    · have hmem : p ∈ a :: ps ↔ p ∈ ps := by simp [heq]
      rw [if_congr hmem rfl rfl, ← ih]
      cases hf : f a with
      | none => rw [List.filterMap_cons_none (by rw [hf]; rfl)]
      | some r =>
        rw [List.filterMap_cons_some (by rw [hf]; rfl), List.lookup_cons, beq_false_of_ne heq]

theorem installed_copy (pl : Plan) : (installed pl db lib).copy? p =
    (if p ∈ pl.todo ++ pl.optional then (db.row? p).map Row.copy else none).or (lib.copy? p) := by
  have hcomp : (fun p => (db.row? p).map fun r => (p, r.copy)) =
      fun p => ((db.row? p).map Row.copy).map fun c => (p, c) := by
    funext p
    rw [Option.map_map]
    rfl
  rw [Library.copy?, installed, List.lookup_append, hcomp, lookup_filterMap]
  rfl

variable {pl : Plan}

theorem copy_of_listed (hp : p ∈ pl.todo ++ pl.optional) {r : Row} (hr : db.row? p = some r) :
    (installed pl db lib).copy? p = some r.copy := by
  rw [installed_copy, if_pos hp, hr]
  rfl

theorem copy_of_kept (hp : p ∉ pl.todo ++ pl.optional) :
    (installed pl db lib).copy? p = lib.copy? p := by
  rw [installed_copy, if_neg hp, Option.none_or]

theorem version_of_listed (hp : p ∈ pl.todo ++ pl.optional) {r : Row} (hr : db.row? p = some r) :
    (installed pl db lib).versionOf p = some r.version := by
  rw [Library.versionOf, copy_of_listed hp hr]
  rfl

theorem version_of_kept (hp : p ∉ pl.todo ++ pl.optional) :
    (installed pl db lib).versionOf p = lib.versionOf p := by
  rw [Library.versionOf, copy_of_kept hp, Library.versionOf]

/-- No package is in an older version than before. -/
theorem version_grows (h : planned req db lib = some pl) {v : String} (hv : lib.versionOf p = some v) :
    AtLeast ((installed pl db lib).versionOf p) v := by
  by_cases hp : p ∈ pl.todo ++ pl.optional
  · rcases plan_never_downgrades h hp with hnone | ⟨current, r, hcurrent, hr, hlt⟩
    · rw [hv] at hnone
      cases hnone
    · obtain rfl := Option.some.inj (hv.symm.trans hcurrent)
      exact ⟨r.version, version_of_listed hp hr, le_of_lt hlt⟩
  · exact ⟨v, (version_of_kept hp).trans hv, le_rfl⟩

/-- Each package of the tree is in the version required. -/
theorem plan_meets_required (h : planned req db lib = some pl) (hp : p ∈ tree req db lib) :
    meets ((installed pl db lib).versionOf p) (required req db lib p) = true := by
  obtain ⟨-, -, havailable, rfl⟩ := planned_iff.mp h
  by_cases htodo : p ∈ todo req db lib
  · obtain ⟨r, hr⟩ := mem_rownames_iff.mp (mem_tree_iff.mp hp).2.2
    rw [version_of_listed (List.mem_append_left _ htodo) hr]
    have hmeets := havailable p htodo
    rwa [hr] at hmeets
  · rw [version_of_kept]
    · exact not_mem_todo htodo hp
    · intro hmem
      rcases List.mem_append.mp hmem with hmem | hmem
      · exact htodo hmem
      · exact (mem_optional hmem).2.1 hp

/-! ## What conflicts are left -/

theorem AtLeast.of_meets {now need : Option String} {version : String} (hmeets : meets now need = true)
    (hneed : AtLeast need version) : AtLeast now version := by
  obtain ⟨v, hv, hall⟩ := meets_iff.mp hmeets
  obtain ⟨n, hn, hle⟩ := hneed
  exact ⟨v, hv, hle.trans (hall n hn)⟩

theorem AtLeast.meets {now : Option String} {version : String} (h : AtLeast now version) :
    meets now (some version) = true := by
  obtain ⟨v, hv, hle⟩ := h
  refine meets_iff.mpr ⟨v, hv, fun r hr => ?_⟩
  obtain rfl := Option.some.inj hr
  exact hle

/-- R refuses what does not meet the requirement. -/
theorem refused_eq (lib : Library) (r : String × Option String) :
    refused lib r = !meets (lib.versionOf r.1) r.2 := by
  obtain ⟨dep, needs⟩ := r
  unfold refused
  cases hhas : lib.versionOf dep with
  | none => rfl
  | some has =>
    cases needs with
    | none => rfl
    | some needs =>
      simp only [meets]
      by_cases hempty : needs = ""
      · subst hempty
        simpa using packageVersion_empty_le has
      · simp [hempty, ← not_le]

theorem meets_of_not_refused {lib : Library} {r : String × Option String} (h : refused lib r ≠ true) :
    meets (lib.versionOf r.1) r.2 = true := by
  rw [refused_eq] at h
  simpa using h

/-- What a package of the tree needs by the index is there then. -/
theorem tree_meets (h : planned req db lib = some pl) (hp : p ∈ tree req db lib)
    {r : String × Option String} (hr : r ∈ strongFor p db) (hrow : r.1 ∈ db.rownames)
    (hbase : r.1 ∉ lib.base) : meets ((installed pl db lib).versionOf r.1) r.2 = true := by
  obtain ⟨dep, version⟩ := r
  have htree : dep ∈ tree req db lib := tree_closed hp hr hrow hbase
  have hmeets := plan_meets_required h htree
  cases version with
  | none =>
    obtain ⟨v, hv, -⟩ := meets_iff.mp hmeets
    exact meets_iff.mpr ⟨v, hv, nofun⟩
  | some version => exact (AtLeast.of_meets hmeets (required_by_index hp hr htree)).meets

theorem mem_requiredBy {base : List String} {c : Copy} {r : String × Option String} :
    r ∈ requiredBy base c ↔ r ∈ requirements c.depends ++ requirements c.imports ∧ r.1 ≠ "" ∧
      skipped base r.1 = false := by
  simp only [requiredBy, List.mem_filter, Bool.decide_and, Bool.and_eq_true, decide_eq_true_eq,
    Bool.not_eq_true']

theorem not_base_of_not_skipped {base : List String} (h : skipped base p = false) : p ∉ base := by
  intro hp
  simp [skipped, hp] at h

/-- The index's row needs what its copy will require. -/
theorem strongFor_of_copy {r : Row} (hr : db.row? p = some r) {base : List String}
    {d : String × Option String} (hd : d ∈ requiredBy base r.copy) : d ∈ strongFor p db := by
  rw [strongFor, hr]
  exact List.mem_append_left _ (mem_requiredBy.mp hd).1

/-- A package that is loaded before and not met is one of the tree. -/
theorem tree_of_conflict (h : planned req db lib = some pl) {r : Conflict}
    (hr : r ∈ conflicts lib req.pkg) (hbase : r.dep ∉ lib.base) : r.dep ∈ tree req db lib := by
  obtain ⟨-, hstuck, -⟩ := planned_iff.mp h
  refine mem_tree_iff.mpr ⟨.inl ?_, hbase, hstuck r hr⟩
  exact List.mem_cons_of_mem _ (List.mem_map_of_mem hr)

theorem not_skipped_of_loaded (hp : p ∈ loaded lib q) : skipped lib.base q = false := by
  rw [loaded] at hp
  split at hp
  · cases hp
  · rename_i hskip
    simpa using hskip

/-- What is loaded before and missing is not optional. -/
theorem not_optional_of_loaded (h : planned req db lib = some pl) (hp : p ∈ loaded lib req.pkg) :
    p ∉ pl.optional := by
  intro hopt
  have hskip := not_skipped_of_loaded hp
  obtain ⟨hrow, -, -, rfl⟩ := planned_iff.mp h
  obtain ⟨hnone, htree, -⟩ := mem_optional hopt
  refine htree ?_
  rcases Relation.ReflTransGen.cases_tail ((mem_loaded_iff hskip).mp hp) with rfl | ⟨a, hreach, hnode, hload⟩
  · exact mem_tree_iff.mpr ⟨.inl List.mem_cons_self, not_base_of_not_skipped hskip, hrow⟩
  · -- a copy that is loaded requires it, and it is not there
    obtain ⟨c, hc⟩ := mem_names_iff.mp hnode
    rw [loads, hc] at hload
    obtain ⟨⟨dep, needs⟩, hreq, rfl⟩ := List.mem_map.mp hload
    have hrefused : refused lib (dep, needs) = true := by
      rw [refused_eq, hnone]
      rfl
    have hconflict : (⟨a, c.version, dep, needs, lib.versionOf dep⟩ : Conflict) ∈ conflicts lib req.pkg :=
      (mem_conflicts_iff hskip).mpr ⟨c, hreach, hc, hreq, hrefused, rfl, rfl⟩
    exact tree_of_conflict h hconflict (not_base_of_not_skipped (mem_requiredBy.mp hreq).2.2)

/-- What a copy that was loaded before requires is there then. -/
theorem copy_meets (h : planned req db lib = some pl) (hp : p ∈ loaded lib req.pkg) {c : Copy}
    (hc : lib.copy? p = some c) {r : String × Option String} (hr : r ∈ requiredBy lib.base c) :
    meets ((installed pl db lib).versionOf r.1) r.2 = true := by
  obtain ⟨dep, needs⟩ := r
  have hskip := not_skipped_of_loaded hp
  by_cases hrefused : refused lib (dep, needs) = true
  · have hconflict : (⟨p, c.version, dep, needs, lib.versionOf dep⟩ : Conflict) ∈ conflicts lib req.pkg :=
      (mem_conflicts_iff hskip).mpr ⟨c, (mem_loaded_iff hskip).mp hp, hc, hr, hrefused, rfl, rfl⟩
    have htree := tree_of_conflict h hconflict (not_base_of_not_skipped (mem_requiredBy.mp hr).2.2)
    have hmeets := plan_meets_required h htree
    cases needs with
    | none =>
      obtain ⟨v, hv, -⟩ := meets_iff.mp hmeets
      exact meets_iff.mpr ⟨v, hv, nofun⟩
    | some needs => exact (AtLeast.of_meets hmeets (required_by_copy hconflict rfl htree)).meets
  · -- it was met, and no version goes down
    obtain ⟨v, hv, hall⟩ := meets_iff.mp (meets_of_not_refused hrefused)
    obtain ⟨v', hv', hle⟩ := version_grows h hv
    exact meets_iff.mpr ⟨v', hv', fun n hn => (hall n hn).trans hle⟩

/-- A conflict that is left is one the plan cannot see. -/
theorem conflict_left (h : planned req db lib = some pl) {r : Conflict}
    (hr : r ∈ conflicts (installed pl db lib) req.pkg) :
    (r.byPackage ∈ pl.todo ∧ r.dep ∉ db.rownames) ∨
      (r.byPackage ∉ pl.todo ∧ r.byPackage ∉ loaded lib req.pkg) := by
  have hskip : skipped (installed pl db lib).base req.pkg = false := by
    by_contra hskip
    rw [conflicts_skipped (by simpa using hskip)] at hr
    cases hr
  obtain ⟨c, -, hc, hreq, hrefused, -, -⟩ := (mem_conflicts_iff hskip).mp hr
  rw [refused_eq] at hrefused
  have hbase : r.dep ∉ lib.base := not_base_of_not_skipped (mem_requiredBy.mp hreq).2.2
  by_cases htodo : r.byPackage ∈ pl.todo
  · refine .inl ⟨htodo, fun hrow => ?_⟩
    obtain ⟨-, -, -, hplan⟩ := planned_iff.mp h
    have hlisted : r.byPackage ∈ todo req db lib := by
      rw [hplan, plan_todo] at htodo
      exact htodo
    have htree : r.byPackage ∈ tree req db lib := (mem_todo hlisted).1
    obtain ⟨row, hrow'⟩ := mem_rownames_iff.mp (mem_tree_iff.mp htree).2.2
    rw [copy_of_listed (List.mem_append_left _ htodo) hrow'] at hc
    obtain rfl := Option.some.inj hc
    have hmeets := tree_meets h htree (strongFor_of_copy hrow' hreq) hrow hbase
    rw [hmeets] at hrefused
    cases hrefused
  · refine .inr ⟨htodo, fun hloaded => ?_⟩
    have hkept : r.byPackage ∉ pl.todo ++ pl.optional := by
      intro hmem
      exact (List.mem_append.mp hmem).elim htodo (not_optional_of_loaded h hloaded)
    rw [copy_of_kept hkept] at hc
    have hmeets := copy_meets h hloaded hc hreq
    rw [hmeets] at hrefused
    cases hrefused

/-- **What an install leaves behind**, when all that is listed was installed: the package in the
version asked for, what its tree needs by the index, and no conflict but those of a package that was
not loaded before, or on what the index does not have. The run reports a result when none is left. -/
theorem plan_sound (h : planned req db lib = some pl) :
    (req.pkg ∉ lib.base →
      meets ((installed pl db lib).versionOf req.pkg) (some req.minVersion) = true) ∧
    (∀ p ∈ tree req db lib, ∀ r ∈ strongFor p db, r.1 ∈ db.rownames → r.1 ∉ lib.base →
      meets ((installed pl db lib).versionOf r.1) r.2 = true) ∧
    (∀ r ∈ conflicts (installed pl db lib) req.pkg,
      (r.byPackage ∈ pl.todo ∧ r.dep ∉ db.rownames) ∨
        (r.byPackage ∉ pl.todo ∧ r.byPackage ∉ loaded lib req.pkg)) ∧
    (outcome req pl (installed pl db lib) = .result ↔
      conflicts (installed pl db lib) req.pkg = []) := by
  obtain ⟨hrow, -, -, hplan⟩ := planned_iff.mp h
  refine ⟨fun hbase => ?_, fun p hp r hr => tree_meets h hp hr, fun r => conflict_left h, ?_⟩
  · have htree : req.pkg ∈ tree req db lib := mem_tree_iff.mpr ⟨.inl List.mem_cons_self, hbase, hrow⟩
    have hmeets := plan_meets_required h htree
    by_cases hmin : req.minVersion = ""
    · obtain ⟨v, hv, -⟩ := meets_iff.mp hmeets
      rw [hmin]
      exact AtLeast.meets ⟨v, hv, packageVersion_empty_le v⟩
    · exact (AtLeast.of_meets hmeets (required_by_request hmin)).meets
  · have hdone : (pl.todo.filter fun p =>
        !meets ((installed pl db lib).versionOf p) (pl.required p)) = [] := by
      refine List.filter_eq_nil_iff.mpr fun p hp => ?_
      have hlisted : p ∈ todo req db lib := by
        rw [hplan, plan_todo] at hp
        exact hp
      have hmeets := plan_meets_required h (mem_todo hlisted).1
      rw [hplan, plan_required, hplan.symm, hmeets]
      exact Bool.false_ne_true
    unfold outcome
    dsimp only
    rw [if_neg (not_not.mpr hdone)]
    by_cases hleft : conflicts (installed pl db lib) req.pkg = []
    · simp [hleft]
    · simp [hleft]

theorem plan_sound_kept :
    meets ((installed (plan keptRequest keptIndex keptLibrary) keptIndex keptLibrary).versionOf "a")
      (some "") = true ∧
    (∀ r ∈ conflicts (installed (plan keptRequest keptIndex keptLibrary) keptIndex keptLibrary) "a",
      (r.byPackage ∈ (plan keptRequest keptIndex keptLibrary).todo ∧ r.dep ∉ keptIndex.rownames) ∨
        (r.byPackage ∉ (plan keptRequest keptIndex keptLibrary).todo ∧
          r.byPackage ∉ loaded keptLibrary "a")) :=
  ⟨(plan_sound kept_planned).1 (by decide), (plan_sound kept_planned).2.2.1⟩

/-! ## What is left -/

theorem kept_left : conflicts (installed (plan keptRequest keptIndex keptLibrary) keptIndex keptLibrary)
    "a" = [⟨"a", "1.0", "x", none, none⟩, ⟨"d", "9.0", "e", none, none⟩] := by
  have hafter : installed (plan keptRequest keptIndex keptLibrary) keptIndex keptLibrary =
      { copies := [("a", { version := "1.0", imports := some "d, x" }),
          ("d", { version := "9.0", imports := some "e" })], base := ["stats"] } := by
    unfold installed plan
    rw [kept_todo, optional_of_without rfl]
    decide +kernel
  have hloaded : loaded { copies := [("a", { version := "1.0", imports := some "d, x" }),
          ("d", { version := "9.0", imports := some "e" })], base := ["stats"] } "a" =
        ["a", "d", "x", "e"] :=
    (if_neg (by decide)).trans (Worklist.visit_of_within (n := 4) (by decide +kernel))
  rw [hafter, conflicts, hloaded]
  decide +kernel

/-- One of R's own packages, which no install touches. -/
def baseRequest : Request where
  pkg := "stats"
  minVersion := "9.0"
  withOptional := false

def baseIndex : Index where
  rows := [("stats", { version := "9.0", repository := "r" })]

def baseLibrary : Library where
  copies := [("stats", { version := "4.0" })]
  base := ["stats"]

theorem base_todo : todo baseRequest baseIndex baseLibrary = [] := by
  have hwanted : wanted baseRequest baseLibrary = ["stats"] := by
    rw [wanted, baseRequest, conflicts_skipped (by decide)]
    rfl
  have hdeps : dependencies ["stats"] baseIndex = ["stats"] :=
    Worklist.visit_of_within (n := 1) (by decide +kernel)
  have htree : tree baseRequest baseIndex baseLibrary = [] := by
    rw [tree, hwanted, hdeps]
    decide +kernel
  unfold todo
  rw [htree]
  decide +kernel

theorem base_planned : planned baseRequest baseIndex baseLibrary =
    some (plan baseRequest baseIndex baseLibrary) := by
  refine planned_iff.mpr ⟨by decide, ?_, ?_, rfl⟩
  · rw [conflicts_skipped (by decide)]
    exact nofun
  · rw [base_todo]
    exact nofun

/-- **An install can leave conflicts**: what a kept copy requires that was not looked at, and what the
index does not have. And R's own packages stay as they are. -/
theorem install_leaves_conflicts :
    (planned keptRequest keptIndex keptLibrary = some (plan keptRequest keptIndex keptLibrary) ∧
      conflicts (installed (plan keptRequest keptIndex keptLibrary) keptIndex keptLibrary) "a" =
        [⟨"a", "1.0", "x", none, none⟩, ⟨"d", "9.0", "e", none, none⟩]) ∧
    planned baseRequest baseIndex baseLibrary = some (plan baseRequest baseIndex baseLibrary) ∧
      meets ((installed (plan baseRequest baseIndex baseLibrary) baseIndex baseLibrary).versionOf
        "stats") (some "9.0") = false := by
  refine ⟨⟨kept_planned, kept_left⟩, base_planned, ?_⟩
  rw [version_of_kept]
  · decide +kernel
  · rw [plan_todo, base_todo, plan, optional_of_without rfl]
    exact List.not_mem_nil

end Jovian.Packages
