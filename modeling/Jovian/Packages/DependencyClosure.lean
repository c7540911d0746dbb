import Jovian.Packages.PlanListed

/-!
# DependencyClosure — the loops that follow requirements end

`.jv.pkg.dependencies` and `.jv.pkg.conflicts` take packages off a queue and put what these require
at its end. A graph of packages may have cycles: a package that was seen is not looked into again.

* `dependenciesWithin`, `conflictsWithin` — so many turns of each loop; nothing where it goes on.
* **`dependency_closure`** — both loops end, the first with the packages that the roots reach.
-/

namespace Jovian.Packages

/-! ## The loops -/

/-- So many turns of `.jv.pkg.dependencies`. -/
def dependenciesWithin (db : Index) : Nat → List String → List String → Option (List String)
  | _, seen, [] => some seen
  | 0, _, _ :: _ => none
  | n + 1, seen, p :: queue =>
    if p ∈ seen then dependenciesWithin db n seen queue
    else
      let seen := seen ++ [p]
      let deps := (strongFor p db).map Prod.fst
      dependenciesWithin db n seen (queue ++ setdiff (intersect deps db.rownames) seen)

/-- The rows for a copy. -/
def conflictsOf (lib : Library) (p : String) (c : Copy) : List Conflict :=
  ((requiredBy lib.base c).filter (refused lib)).map fun r =>
    { byPackage := p, byVersion := c.version, dep := r.1, needs := r.2, has := lib.versionOf r.1 }

/-- So many turns of `.jv.pkg.conflicts`. -/
def conflictsWithin (lib : Library) :
    Nat → List String → List String → List Conflict → Option (List Conflict)
  | _, _, [], found => some found
  | 0, _, _ :: _, _ => none
  | n + 1, seen, p :: queue, found =>
    if p ∈ seen ∨ skipped lib.base p then conflictsWithin lib n seen queue found
    else
      let seen := seen ++ [p]
      match lib.copy? p with
      | none => conflictsWithin lib n seen queue found
      | some c => conflictsWithin lib n seen (queue ++ (requiredBy lib.base c).map Prod.fst)
          (found ++ conflictsOf lib p c)

/-! ## They end -/

variable {db : Index} {lib : Library} {pkg p q : String}

/-- The queue has packages of the index only. -/
theorem dependenciesWithin_eq {n : Nat} {seen queue : List String} (h : ∀ p ∈ queue, p ∈ db.rownames) :
    dependenciesWithin db n seen queue = Worklist.within db.rownames
      (fun seen p => setdiff (intersect ((strongFor p db).map Prod.fst) db.rownames) seen) n seen
        queue := by
  induction n generalizing seen queue with
  | zero => cases queue <;> rfl
  | succ n ih =>
    cases queue with
    | nil => rfl
    | cons p queue =>
      obtain ⟨hp, hqueue⟩ := List.forall_mem_cons.mp h
      rw [dependenciesWithin, Worklist.within]
      by_cases hseen : p ∈ seen
      · rw [if_pos hseen, if_pos hseen, ih hqueue]
      · rw [if_neg hseen, if_neg hseen, if_pos hp]
        refine ih fun q hq => ?_
        rcases List.mem_append.mp hq with hq | hq
        · exact hqueue q hq
        · exact (mem_intersect.mp (mem_setdiff.mp hq).1).2

theorem dependencies_end (pkgs : List String) (db : Index) :
    ∃ n, dependenciesWithin db n [] (intersect pkgs db.rownames) = some (dependencies pkgs db) := by
  obtain ⟨n, hn⟩ := Worklist.exists_within db.rownames
    (fun seen p => setdiff (intersect ((strongFor p db).map Prod.fst) db.rownames) seen) []
    (intersect pkgs db.rownames)
  refine ⟨n, ?_⟩
  rw [dependenciesWithin_eq fun p hp => (mem_intersect.mp hp).2, hn]
  rfl

/-- What a copy requires is looked into, if it is not R's own. -/
theorem not_skipped_of_requiredBy {c : Copy} {r : String × Option String}
    (h : r ∈ requiredBy lib.base c) : skipped lib.base r.1 = false := by
  have hr := (List.mem_filter.mp h).2
  simpa using (of_decide_eq_true hr).2

/-- The rows that are found from some turn on are those of the packages that are seen from it on. -/
theorem conflictsWithin_end (lib : Library) {seen queue : List String}
    (hqueue : ∀ p ∈ queue, skipped lib.base p = false) (found : List Conflict) : ∃ n later,
    Worklist.visit lib.names (fun _ p => loads lib p) seen queue = seen ++ later ∧
      conflictsWithin lib n seen queue found = some (found ++ later.flatMap fun p =>
        match lib.copy? p with
        | none => []
        | some c => conflictsOf lib p c) := by
  induction seen, queue using Worklist.visit.induct lib.names (fun _ p => loads lib p)
    generalizing found with
  | case1 seen =>
    refine ⟨0, [], ?_, ?_⟩
    · rw [Worklist.visit, List.append_nil]
    · rw [conflictsWithin, List.flatMap_nil, List.append_nil]
  | case2 seen p queue hseen ih =>
    obtain ⟨n, later, hvisit, hn⟩ := ih (fun q hq => hqueue q (List.mem_cons_of_mem _ hq)) found
    refine ⟨n + 1, later, ?_, ?_⟩
    · rw [Worklist.visit, if_pos hseen, hvisit]
    · rw [conflictsWithin, if_pos (.inl hseen), hn]
  | case3 seen p queue hseen hnode ih =>
    obtain ⟨hp, hrest⟩ := List.forall_mem_cons.mp hqueue
    obtain ⟨c, hc⟩ := mem_names_iff.mp hnode
    have hloads : loads lib p = (requiredBy lib.base c).map Prod.fst := by rw [loads, hc]
    have hmore : ∀ q ∈ queue ++ loads lib p, skipped lib.base q = false := by
      intro q hq
      rcases List.mem_append.mp hq with hq | hq
      · exact hrest q hq
      · rw [hloads] at hq
        obtain ⟨r, hr, rfl⟩ := List.mem_map.mp hq
        exact not_skipped_of_requiredBy hr
    obtain ⟨n, later, hvisit, hn⟩ := ih hmore (found ++ conflictsOf lib p c)
    refine ⟨n + 1, p :: later, ?_, ?_⟩
    · rw [Worklist.visit, if_neg hseen, if_pos hnode, hvisit, List.append_assoc, List.singleton_append]
    · rw [hloads] at hn
      rw [conflictsWithin, if_neg (by simp [hseen, hp])]
      simp only [hc, hn, List.flatMap_cons, List.append_assoc]
  | case4 seen p queue hseen hnode ih =>
    obtain ⟨hp, hrest⟩ := List.forall_mem_cons.mp hqueue
    have hc : lib.copy? p = none := by
      rw [mem_names_iff] at hnode
      exact Option.eq_none_iff_forall_ne_some.mpr fun c hc => hnode ⟨c, hc⟩
    obtain ⟨n, later, hvisit, hn⟩ := ih hrest found
    refine ⟨n + 1, p :: later, ?_, ?_⟩
    · rw [Worklist.visit, if_neg hseen, if_neg hnode, hvisit, List.append_assoc, List.singleton_append]
    · rw [conflictsWithin, if_neg (by simp [hseen, hp])]
      simp only [hc, hn, List.flatMap_cons, List.nil_append]

theorem conflicts_end (lib : Library) (pkg : String) :
    ∃ n, conflictsWithin lib n [] [pkg] [] = some (conflicts lib pkg) := by
  cases hpkg : skipped lib.base pkg with
  | true =>
    refine ⟨1, ?_⟩
    rw [conflictsWithin, if_pos (.inr hpkg), conflicts_skipped hpkg]
    rfl
  | false =>
    have hqueue : ∀ p ∈ [pkg], skipped lib.base p = false := List.forall_mem_singleton.mpr hpkg
    obtain ⟨n, later, hvisit, hn⟩ := @conflictsWithin_end lib [] [pkg] hqueue []
    refine ⟨n, ?_⟩
    rw [hn, conflicts, loaded, if_neg (by simp [hpkg]), hvisit, List.nil_append, List.nil_append]
    rfl

/-! ## What they end with -/

/-- `p` needs `q` by a strong field of its row, and the index has both. -/
def Needs (db : Index) (p q : String) : Prop :=
  p ∈ db.rownames ∧ q ∈ db.rownames ∧ ∃ version, (q, version) ∈ strongFor p db

theorem edge_iff : Worklist.Edge db.rownames (strong db) p q ↔ Needs db p q := by
  simp only [Worklist.Edge, strong, mem_intersect, List.mem_map, Prod.exists, exists_and_right,
    exists_eq_right, Needs]
  exact and_congr_right fun _ => and_comm

/-- **The packages that the roots reach**, each once; and the conflict check ends too. -/
theorem dependency_closure (pkgs : List String) (db : Index) (lib : Library) (pkg : String) :
    (∃ n, dependenciesWithin db n [] (intersect pkgs db.rownames) = some (dependencies pkgs db)) ∧
      (dependencies pkgs db).Nodup ∧
      (∀ q, q ∈ dependencies pkgs db ↔
        ∃ p ∈ pkgs, p ∈ db.rownames ∧ Relation.ReflTransGen (Needs db) p q) ∧
      ∃ n, conflictsWithin lib n [] [pkg] [] = some (conflicts lib pkg) := by
  refine ⟨dependencies_end pkgs db, Worklist.nodup_visit List.nodup_nil, fun q => ?_,
    conflicts_end lib pkg⟩
  have hedges : Worklist.Reaches db.rownames (strong db) = Relation.ReflTransGen (Needs db) := by
    rw [Worklist.Reaches]
    congr 1
    funext a b
    exact propext edge_iff
  rw [mem_dependencies_iff, hedges]
  simp only [and_assoc]

end Jovian.Packages
