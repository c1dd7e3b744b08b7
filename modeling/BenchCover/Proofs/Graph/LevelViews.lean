import BenchCover.Proofs.Graph.Levels
import Mathlib.Order.Bounds.Basic

/-!
# The views of levels

Levels are told in three ways: by function, as one list for each level, and as a map from levels to
lists.  Here each of them is described by distances.

**By function.**  A function has a level if it is not left out at its distance from some root, and the
level is the least of these distances (`level?_eq_some_iff`).  A function may have different distances
from different roots and be left out at some of them only.

**Depth.**  The depth is above all distances from roots, also those of functions that are left out
(`lt_depth_iff`).

**By level.**  Functions are spread over as many lists as the depth says.  Since every level is a
distance, each of them has a list, whatever the order in which functions are spread
(`Levels.getElem?_spread`); ordered by id, the lists have the functions of their levels
(`getElem?_slices`).

`CallGraph.levels_spec` has all of it.
-/

namespace BenchCover

namespace Levels

variable {levels : Levels} {exclusion : Exclusion} {depth level n : ℕ} {id : FunctionId}
  {entries : List (FunctionId × ℕ)}

/-! ## Levels and depth of a list of visits -/

/-- A level that is the infimum of some numbers is the least of them. -/
lemma eq_some_iff_isLeast {level? : Option ℕ} {s : Set ℕ}
    (h : ∀ n : ℕ∞, n ≤ value level? ↔ ∀ m ∈ s, n ≤ m) : level? = some level ↔ IsLeast s level := by
  constructor
  · rintro rfl
    have hlower : ∀ m ∈ s, level ≤ m := fun m hm => Nat.cast_le.1 ((h level).1 le_rfl m hm)
    have hnonempty : s.Nonempty := by
      by_contra hempty
      rw [Set.not_nonempty_iff_eq_empty] at hempty
      have htop := (h ⊤).2 (by simp [hempty])
      exact absurd htop (by simp)
    have hleast : IsLeast s (sInf s) := ⟨Nat.sInf_mem hnonempty, fun m hm => Nat.sInf_le hm⟩
    have hle : sInf s ≤ level :=
      Nat.cast_le.1 ((h (sInf s : ℕ)).2 fun m hm => Nat.cast_le.2 (hleast.2 hm))
    rwa [le_antisymm hle (hlower _ hleast.1)] at hleast
  · intro hleast
    have hle : (level : ℕ∞) ≤ value level? := (h level).2 fun m hm => Nat.cast_le.2 (hleast.2 hm)
    exact value_injective (le_antisymm ((h _).1 le_rfl level hleast.1) hle)

/-- The depth is above the distances of all visits. -/
lemma lt_depth_foldl_record_iff {visits : List (Function × ℕ)} :
    n < (visits.foldl (record exclusion) levels).depth ↔
      n < levels.depth ∨ ∃ visit ∈ visits, n ≤ visit.2 := by
  induction visits generalizing levels with
  | nil => simp
  | cons visit rest ih =>
    have hvisit : (levels.record exclusion visit).depth = max levels.depth (visit.2 + 1) := rfl
    rw [List.foldl_cons, ih, hvisit, lt_max_iff, Nat.lt_succ_iff, List.exists_mem_cons_iff, or_assoc]

/-! ## Lists of levels -/

/-- The functions among some entries that have a level. -/
def atLevel (entries : List (FunctionId × ℕ)) (level : ℕ) : List FunctionId :=
  (entries.filter (·.2 = level)).map (·.1)

lemma mem_atLevel_iff : id ∈ atLevel entries level ↔ (id, level) ∈ entries := by
  simp [atLevel]

lemma getElem?_foldl_modify (lists : List (List FunctionId)) :
    (entries.foldl (fun lists (id, level) => lists.modify level (· ++ [id])) lists)[level]?
      = lists[level]?.map (· ++ atLevel entries level) := by
  induction entries generalizing lists with
  | nil => simp [atLevel]
  | cons entry rest ih =>
    obtain ⟨id, other⟩ := entry
    rw [List.foldl_cons, ih, List.getElem?_modify]
    by_cases hsame : other = level
    · cases hlist : lists[level]? <;> simp [hsame, atLevel]
    · cases hlist : lists[level]? <;> simp [hsame, atLevel]

/-- **Functions that are spread** over lists are in the list of their level, if it is below the
depth. -/
lemma getElem?_spread :
    (spread depth entries)[level]? = if level < depth then some (atLevel entries level) else none := by
  rw [spread, getElem?_foldl_modify, List.getElem?_replicate]
  split_ifs <;> simp

lemma length_spread : (spread depth entries).length = depth := by
  rw [spread]
  refine List.foldlRecOn (motive := fun lists : List (List FunctionId) => lists.length = depth)
    entries _ (List.length_replicate ..) fun lists hlists entry _ => ?_
  rw [List.length_modify, hlists]

/-- The functions of a level are recorded in the order of their ids. -/
lemma pairwise_atLevel (levels : Levels) (level : ℕ) :
    (atLevel levels.recorded.entries level).Pairwise (· < ·) :=
  List.pairwise_map.2 (levels.recorded.sorted.filter _)

/-- **The slice of a level** has its functions. -/
lemma getElem?_slices (levels : Levels) (level : ℕ) : levels.slices[level]?
    = if level < levels.depth then some (atLevel levels.recorded.entries level) else none := by
  have hordered : (atLevel levels.recorded.entries level).mergeSort (fun a b => decide (a ≤ b))
      = atLevel levels.recorded.entries level :=
    List.mergeSort_of_pairwise ((levels.pairwise_atLevel level).imp fun hlt => by simpa using hlt.le)
  rw [slices, List.getElem?_map, getElem?_spread]
  split_ifs
  · rw [Option.map_some, hordered]
  · rfl

/-- **The functions in a slice** are those of its level, in the order of their ids. -/
lemma mem_of_getElem?_slices {ids : List FunctionId} (hids : levels.slices[level]? = some ids) :
    ids.Pairwise (· < ·) ∧ ∀ id, id ∈ ids ↔ levels.level? id = some level := by
  rw [getElem?_slices] at hids
  obtain ⟨-, hsome⟩ := Option.ite_none_right_eq_some.1 hids
  obtain rfl := Option.some.inj hsome
  refine ⟨levels.pairwise_atLevel level, fun id => ?_⟩
  rw [mem_atLevel_iff, level?, SortedMap.lookup_eq_some_iff]

/-- A function whose level is below the depth is in one slice. -/
lemma existsUnique_slice (hlevel : levels.level? id = some level) (hlt : level < levels.depth) :
    ∃! n : ℕ, ∃ ids : List FunctionId, levels.slices[n]? = some ids ∧ id ∈ ids := by
  have hids : levels.slices[level]? = some (atLevel levels.recorded.entries level) := by
    rw [getElem?_slices, if_pos hlt]
  refine ⟨level, ⟨_, hids, ((mem_of_getElem?_slices hids).2 id).2 hlevel⟩, ?_⟩
  rintro n ⟨ids, hn, hmem⟩
  exact Option.some.inj ((((mem_of_getElem?_slices hn).2 id).1 hmem).symm.trans hlevel)

/-- Slices do not depend on the order in which functions are spread. -/
lemma map_mergeSort_spread (hentries : entries.Perm levels.recorded.entries) :
    (spread levels.depth entries).map (·.mergeSort fun a b => decide (a ≤ b)) = levels.slices := by
  refine List.ext_getElem? fun level => ?_
  rw [List.getElem?_map, getElem?_spread, getElem?_slices]
  split_ifs
  · have hperm : (atLevel entries level).Perm (atLevel levels.recorded.entries level) :=
      (hentries.filter _).map _
    have hsorted : ((atLevel entries level).mergeSort fun a b => decide (a ≤ b)).Pairwise (· ≤ ·) :=
      (List.pairwise_mergeSort (by simpa using fun a b c => le_trans)
        (by simpa using le_total) _).imp of_decide_eq_true
    rw [Option.map_some]
    exact congrArg some (((List.mergeSort_perm _ _).trans hperm).eq_of_pairwise
      (fun a b _ _ => le_antisymm) hsorted ((levels.pairwise_atLevel level).imp le_of_lt))
  · rfl

lemma lookup_byLevel (levels : Levels) (level : ℕ) :
    levels.byLevel.lookup level = levels.slices[level]? := by
  refine Option.ext fun ids => ?_
  rw [byLevel, SortedMap.lookup_ofList_iff]
  · simp [List.mem_zipIdx_iff_getElem?]
  · rw [List.map_map]
    have hlevels : (levels.slices.zipIdx.map fun entry => entry.2) = List.range' 0 levels.slices.length :=
      List.zipIdx_map_snd 0 levels.slices
    exact hlevels ▸ List.nodup_range' 1

end Levels

/-! ## Levels of a graph -/

namespace CallGraph

variable {g : CallGraph} {roots : List FunctionId} {exclusion : Exclusion} {f : Function}
  {id : FunctionId} {level n : ℕ}

/-- **The distances of a function** from those of the roots that are in the graph. -/
def rootDistances (g : CallGraph) (roots : List FunctionId) (id : FunctionId) : Set ℕ :=
  {n | ∃ root ∈ roots, root ∈ g.ids ∧ g.IsDistance root id n}

/-- The distances at which a function is not left out. -/
def countedDistances (g : CallGraph) (roots : List FunctionId) (exclusion : Exclusion)
    (f : Function) : Set ℕ :=
  {n ∈ g.rootDistances roots f.id | exclusion.excludes f (some n) = false}

/-- Levels are recorded for functions of the graph. -/
lemma mem_ids_of_level? (hlevel : (g.levels roots exclusion).level? id = some level) :
    id ∈ g.ids := by
  by_contra hid
  have hnone : Levels.value ((⟨0, .empty⟩ : Levels).level? id) = ⊤ := rfl
  have htop : ⊤ ≤ Levels.value ((g.levels roots exclusion).level? id) := by
    rw [levels, Levels.le_value_foldl_record_iff, hnone]
    refine ⟨le_rfl, fun visit hvisit hsame _ => absurd ?_ hid⟩
    obtain ⟨root, -, hvisit⟩ := List.mem_flatMap.1 hvisit
    by_cases hroot : root ∈ g.ids
    · exact mem_ids_iff.2 ⟨visit.1, ((mem_visits_iff hroot).1 hvisit).1, hsame⟩
    · simp [visits_eq_nil hroot] at hvisit
  rw [hlevel] at htop
  exact absurd htop (by simp)

/-- **The level of a function** is the least distance from a root at which it is not left out. -/
theorem level?_eq_some_iff (roots : List FunctionId) (exclusion : Exclusion)
    (hf : f ∈ g.functions) : (g.levels roots exclusion).level? f.id = some level ↔
      IsLeast (g.countedDistances roots exclusion f) level := by
  refine Levels.eq_some_iff_isLeast fun n => (le_value_levels_iff roots exclusion hf n).trans ?_
  constructor
  · rintro h m ⟨⟨root, hroot, hknown, hdistance⟩, hcounted⟩
    exact h root hroot hknown m hdistance hcounted
  · intro h root hroot hknown m hdistance hcounted
    exact h m ⟨⟨root, hroot, hknown, hdistance⟩, hcounted⟩

/-- **The depth of the levels** is above all distances from roots. -/
theorem lt_depth_iff (g : CallGraph) (roots : List FunctionId) (exclusion : Exclusion) (n : ℕ) :
    n < (g.levels roots exclusion).depth ↔ ∃ id, ∃ m ∈ g.rootDistances roots id, n ≤ m := by
  rw [levels, Levels.lt_depth_foldl_record_iff, or_iff_right (Nat.not_lt_zero n)]
  constructor
  · rintro ⟨⟨f, m⟩, hvisit, hle⟩
    obtain ⟨root, hroot, hvisit⟩ := List.mem_flatMap.1 hvisit
    by_cases hknown : root ∈ g.ids
    · exact ⟨f.id, m, ⟨root, hroot, hknown, ((mem_visits_iff hknown).1 hvisit).2⟩, hle⟩
    · simp [visits_eq_nil hknown] at hvisit
  · rintro ⟨id, m, ⟨root, hroot, hknown, hdistance⟩, hle⟩
    obtain ⟨f, hf, rfl⟩ := mem_ids_iff.1 (hdistance.reaches.mem_ids hknown)
    exact ⟨(f, m), List.mem_flatMap.2 ⟨root, hroot, (mem_visits_iff hknown).2 ⟨hf, hdistance⟩⟩, hle⟩

lemma level_lt_depth (hlevel : (g.levels roots exclusion).level? id = some level) :
    level < (g.levels roots exclusion).depth := by
  obtain ⟨f, hf, rfl⟩ := mem_ids_iff.1 (mem_ids_of_level? hlevel)
  have hcounted := ((level?_eq_some_iff roots exclusion hf).1 hlevel).1
  exact (lt_depth_iff g roots exclusion level).2 ⟨f.id, level, hcounted.1, le_rfl⟩

/-- The least distance from roots is the least number of calls from a root. -/
lemma isLeast_rootDistances_iff : IsLeast (g.rootDistances roots id) n ↔
    IsLeast {n | ∃ root ∈ roots, root ∈ g.ids ∧ g.Steps root n id} n := by
  have hsubset : g.rootDistances roots id ⊆ {n | ∃ root ∈ roots, root ∈ g.ids ∧ g.Steps root n id} := by
    rintro m ⟨root, hroot, hknown, hdistance⟩
    exact ⟨root, hroot, hknown, hdistance.1⟩
  constructor
  · rintro ⟨hmem, hlower⟩
    refine ⟨hsubset hmem, ?_⟩
    rintro m ⟨root, hroot, hknown, hsteps⟩
    obtain ⟨k, hdistance⟩ := Reaches.exists_isDistance ⟨m, hsteps⟩
    exact (hlower ⟨root, hroot, hknown, hdistance⟩).trans (hdistance.2 hsteps)
  · rintro ⟨⟨root, hroot, hknown, hsteps⟩, hlower⟩
    refine ⟨⟨root, hroot, hknown, hsteps, fun m hm => hlower ⟨root, hroot, hknown, hm⟩⟩, ?_⟩
    exact fun m hm => hlower (hsubset hm)

/-- A function has a level if it is not left out at some of its distances from the roots. -/
lemma exists_level?_iff (roots : List FunctionId) (exclusion : Exclusion) (hf : f ∈ g.functions) :
    (∃ level, (g.levels roots exclusion).level? f.id = some level) ↔
      ∃ root ∈ roots, root ∈ g.ids ∧ ∃ n, g.IsDistance root f.id n ∧
        exclusion.excludes f (some n) = false := by
  constructor
  · rintro ⟨level, hlevel⟩
    obtain ⟨⟨root, hroot, hknown, hdistance⟩, hcounted⟩ :=
      ((level?_eq_some_iff roots exclusion hf).1 hlevel).1
    exact ⟨root, hroot, hknown, level, hdistance, hcounted⟩
  · rintro ⟨root, hroot, hknown, n, hdistance, hcounted⟩
    have hnonempty : (g.countedDistances roots exclusion f).Nonempty :=
      ⟨n, ⟨root, hroot, hknown, hdistance⟩, hcounted⟩
    exact ⟨_, (level?_eq_some_iff roots exclusion hf).2
      ⟨Nat.sInf_mem hnonempty, fun m hm => Nat.sInf_le hm⟩⟩

/-- Below a root of the graph the depth is one more than the largest distance. -/
lemma exists_depth_eq (exclusion : Exclusion) (hroots : ∃ root ∈ roots, root ∈ g.ids) :
    ∃ n, (g.levels roots exclusion).depth = n + 1 ∧
      IsGreatest {n | ∃ id, n ∈ g.rootDistances roots id} n := by
  obtain ⟨root, hroot, hknown⟩ := hroots
  have hpositive : 0 < (g.levels roots exclusion).depth :=
    (lt_depth_iff g roots exclusion 0).2
      ⟨root, 0, ⟨root, hroot, hknown, .start, fun _ _ => Nat.zero_le _⟩, le_rfl⟩
  obtain ⟨n, hn⟩ := Nat.exists_eq_add_one_of_ne_zero hpositive.ne'
  have hupper : ∀ id, ∀ m ∈ g.rootDistances roots id, m ≤ n := by
    intro id m hm
    have hlt := (lt_depth_iff g roots exclusion m).2 ⟨id, m, hm, le_rfl⟩
    omega
  obtain ⟨id, m, hm, hle⟩ := (lt_depth_iff g roots exclusion n).1 (hn ▸ Nat.lt_succ_self n)
  obtain rfl : m = n := le_antisymm (hupper id m hm) hle
  refine ⟨m, hn, ⟨id, hm⟩, ?_⟩
  rintro k ⟨other, hk⟩
  exact hupper other k hk

lemma depth_eq_zero (exclusion : Exclusion) (habsent : ∀ root ∈ roots, root ∉ g.ids) :
    (g.levels roots exclusion).depth = 0 := by
  refine Nat.eq_zero_of_not_pos fun hpositive => ?_
  obtain ⟨_, _, ⟨root, hroot, hknown, -⟩, -⟩ := (lt_depth_iff g roots exclusion 0).1 hpositive
  exact habsent root hroot hknown

/-- **What the levels of a graph below a list of roots are.** -/
structure HasLevels (g : CallGraph) (roots : List FunctionId) (exclusion : Exclusion)
    (levels : Levels) : Prop where
  known : ∀ id level, levels.level? id = some level → id ∈ g.ids
  /-- A function is recorded if it is not left out at its distance from some root. -/
  recorded_iff : ∀ f ∈ g.functions, (∃ level, levels.level? f.id = some level) ↔
    ∃ root ∈ roots, root ∈ g.ids ∧ ∃ n, g.IsDistance root f.id n ∧
      exclusion.excludes f (some n) = false
  level_iff : ∀ f ∈ g.functions, ∀ level, levels.level? f.id = some level ↔
    IsLeast (g.countedDistances roots exclusion f) level
  /-- If it does not matter at which level a function is met, levels are least numbers of calls. -/
  shortest : (∀ f m n, exclusion.excludes f (some m) = exclusion.excludes f (some n)) →
    ∀ f ∈ g.functions, ∀ level, levels.level? f.id = some level →
      IsLeast {n | ∃ root ∈ roots, root ∈ g.ids ∧ g.Steps root n f.id} level
  /-- The depth is one more than the largest distance from a root. -/
  depth_eq : (∃ root ∈ roots, root ∈ g.ids) → ∃ n, levels.depth = n + 1 ∧
    IsGreatest {n | ∃ id, n ∈ g.rootDistances roots id} n
  depth_eq_zero : (∀ root ∈ roots, root ∉ g.ids) → levels.depth = 0
  level_lt : ∀ id level, levels.level? id = some level → level < levels.depth
  length_slices : levels.slices.length = levels.depth
  mem_slice_iff : ∀ level ids, levels.slices[level]? = some ids →
    ids.Pairwise (· < ·) ∧ ∀ id, id ∈ ids ↔ levels.level? id = some level
  /-- A recorded function is in the list of one level. -/
  one_slice : ∀ id level, levels.level? id = some level →
    ∃! n : ℕ, ∃ ids : List FunctionId, levels.slices[n]? = some ids ∧ id ∈ ids
  lookup_byLevel : ∀ level, levels.byLevel.lookup level = levels.slices[level]?
  /-- The lists are the same in whatever order the functions are spread over them. -/
  spread_eq : ∀ entries, entries.Perm levels.recorded.entries →
    (Levels.spread levels.depth entries).map (·.mergeSort fun a b => decide (a ≤ b)) = levels.slices

/-- **The levels of a graph** in all views.  A function has the least distance from a root at which it
is not left out as its level, and none if there is no such distance; the depth is one more than the
largest distance from a root; each level below the depth has the list of its functions, in the order of
their ids; and every function with a level is in exactly one of the lists. -/
theorem levels_spec (g : CallGraph) (roots : List FunctionId) (exclusion : Exclusion) :
    g.HasLevels roots exclusion (g.levels roots exclusion) := by
  refine
    { known := fun id level hlevel => mem_ids_of_level? hlevel
      recorded_iff := fun f hf => exists_level?_iff roots exclusion hf
      level_iff := fun f hf level => level?_eq_some_iff roots exclusion hf
      shortest := fun hignores f hf level hlevel => ?_
      depth_eq := exists_depth_eq exclusion
      depth_eq_zero := depth_eq_zero exclusion
      level_lt := fun id level hlevel => level_lt_depth hlevel
      length_slices := by rw [Levels.slices, List.length_map, Levels.length_spread]
      mem_slice_iff := fun level ids hids => Levels.mem_of_getElem?_slices hids
      one_slice := fun id level hlevel => Levels.existsUnique_slice hlevel (level_lt_depth hlevel)
      lookup_byLevel := (g.levels roots exclusion).lookup_byLevel
      spread_eq := fun entries hentries => Levels.map_mergeSort_spread hentries }
  -- all distances are counted if one of them is
  obtain ⟨⟨hmem, hcounted⟩, hlower⟩ := (level?_eq_some_iff roots exclusion hf).1 hlevel
  refine isLeast_rootDistances_iff.1 ⟨hmem, fun m hm => hlower ⟨hm, ?_⟩⟩
  rw [hignores f m level, hcounted]

end CallGraph

end BenchCover
