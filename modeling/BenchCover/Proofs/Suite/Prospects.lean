import BenchCover.Proofs.Graph.Levels
import BenchCover.Proofs.Suite.Greedy
import BenchCover.Proofs.Suite.Overlap
import BenchCover.Suite.Recommendation
import Mathlib.Data.Prod.Lex
import Mathlib.Data.String.Basic

/-!
# What a prospect is

A prospect is made by walking from its function.  Here it is described by reachability alone.

**Reach.**  `Suite.reached` are the functions of one kind, those of the project or the others, that
a function reaches; `Suite.newlyReached` are those of them that no micro benchmark shares.  A
prospect starts with exactly these (`toFinset_nodes_ofFunction`), and its level is the depth of its
function (`value_level_ofFunction`): what may be recommended belongs to the project and is not
covered, so that the exclusion of the levels never leaves it out.

**Rank.**  The order of recommendations compares four numbers and names one after the other, which
is a lexicographic order (`Prospect.before_iff`).
-/

namespace BenchCover

open OrderDual (toDual)

/-! ## Reach -/

namespace Suite

variable {suite : Suite} {projects : ProjectPrefixes} {overlap : SuiteOverlap} {project : Bool}
  {f h : Function} {id : FunctionId}

/-- **A function that may be recommended** belongs to the project, and no micro benchmark shares
it. -/
structure MayRecommend (suite : Suite) (projects : ProjectPrefixes) (overlap : SuiteOverlap)
    (f : Function) : Prop where
  mem : f ∈ suite.systemGraph.functions
  covers : projects.covers f.name = true
  uncovered : f.id ∉ overlap.total.sharedNodes.keySet

open Classical in
/-- The functions of the project, or the others, that a function reaches in the system graph. -/
noncomputable def reached (suite : Suite) (projects : ProjectPrefixes) (project : Bool)
    (f : Function) : Finset FunctionId :=
  ((suite.systemGraph.functions.filter fun h =>
    projects.covers h.name = project ∧ suite.systemGraph.Reaches f.id h.id).map (·.id)).toFinset

/-- Those of them that no micro benchmark shares. -/
noncomputable def newlyReached (suite : Suite) (projects : ProjectPrefixes)
    (overlap : SuiteOverlap) (project : Bool) (f : Function) : Finset FunctionId :=
  suite.reached projects project f \ overlap.total.sharedNodes.keySet

lemma mem_reached_iff : id ∈ suite.reached projects project f ↔
    ∃ h ∈ suite.systemGraph.functions, h.id = id ∧ projects.covers h.name = project ∧
      suite.systemGraph.Reaches f.id h.id := by
  simp only [reached, List.mem_toFinset, List.mem_map, List.mem_filter, decide_eq_true_eq]
  constructor
  · rintro ⟨h, ⟨hmem, hcovers, hreaches⟩, rfl⟩
    exact ⟨h, hmem, rfl, hcovers, hreaches⟩
  · rintro ⟨h, hmem, rfl, hcovers, hreaches⟩
    exact ⟨h, ⟨hmem, hcovers, hreaches⟩, rfl⟩

/-- What is reached by way of another function is reached. -/
lemma reached_subset (hreaches : suite.systemGraph.Reaches f.id h.id) :
    suite.reached projects project h ⊆ suite.reached projects project f := by
  intro id hid
  obtain ⟨k, hk, hsame, hcovers, hfrom⟩ := mem_reached_iff.1 hid
  exact mem_reached_iff.2 ⟨k, hk, hsame, hcovers, hreaches.trans hfrom⟩

lemma newlyReached_subset (hreaches : suite.systemGraph.Reaches f.id h.id) :
    suite.newlyReached projects overlap project h
      ⊆ suite.newlyReached projects overlap project f :=
  Finset.sdiff_subset_sdiff (reached_subset hreaches) subset_rfl

lemma reaches_of_mem_newlyReached (hid : id ∈ suite.newlyReached projects overlap project f) :
    suite.systemGraph.Reaches f.id id := by
  obtain ⟨h, -, rfl, -, hreaches⟩ := mem_reached_iff.1 (Finset.mem_sdiff.1 hid).1
  exact hreaches

/-- What may be recommended is newly reached from itself. -/
lemma MayRecommend.self_mem (hf : suite.MayRecommend projects overlap f) :
    f.id ∈ suite.newlyReached projects overlap true f :=
  Finset.mem_sdiff.2 ⟨mem_reached_iff.2 ⟨f, hf.mem, rfl, hf.covers, .refl _ _⟩, hf.uncovered⟩

end Suite

namespace Prospect

variable {suite : Suite} {projects : ProjectPrefixes} {overlap : SuiteOverlap} {project : Bool}
  {f : Function}

/-! ## Prospects from walks -/

/-- The functions of the project, or the others, that a prospect has. -/
def nodes (p : Prospect) : (project : Bool) → IdSet
  | true => p.projectNodes
  | false => p.otherNodes

/-- A visit leaves the function and the level of a prospect alone. -/
lemma reach_eq (isProject covered : Exclusion) (p : Prospect) (visit : Function × Nat) :
    (p.reach isProject covered visit).function = p.function ∧
      (p.reach isProject covered visit).level = p.level := by
  obtain ⟨h, distance⟩ := visit
  rw [reach]
  split_ifs <;> exact ⟨rfl, rfl⟩

/-- A visited function is added on its side, unless it is covered. -/
lemma nodes_reach (p : Prospect) (visit : Function × Nat) :
    (p.reach (.ofProjects projects) overlap.covered visit).nodes project
      = if projects.covers visit.1.name = project ∧
          visit.1.id ∉ overlap.total.sharedNodes.keySet
        then (p.nodes project).insert visit.1.id else p.nodes project := by
  obtain ⟨h, distance⟩ := visit
  rw [reach]
  by_cases hshared : h.id ∈ overlap.total.sharedNodes.keySet
  · simp [SuiteOverlap.covered_excludes.2 hshared, hshared]
  · have huncovered : ¬ overlap.covered.excludes h (some distance) = true :=
      fun hcovered => hshared (SuiteOverlap.covered_excludes.1 hcovered)
    rw [if_neg huncovered]
    cases hcovers : projects.covers h.name <;> cases project <;>
      simp [nodes, Exclusion.ofProjects, hcovers, hshared]

lemma mem_nodes_foldl_reach {visits : List (Function × Nat)} {p : Prospect} {id : FunctionId} :
    id ∈ (visits.foldl (reach (.ofProjects projects) overlap.covered) p).nodes project ↔
      id ∈ p.nodes project ∨ ∃ visit ∈ visits, visit.1.id = id ∧
        projects.covers visit.1.name = project ∧ id ∉ overlap.total.sharedNodes.keySet := by
  induction visits generalizing p with
  | nil => simp
  | cons visit rest ih =>
    rw [List.foldl_cons, ih, nodes_reach, List.exists_mem_cons_iff, ← or_assoc]
    refine or_congr_left ?_
    split_ifs with hadded
    · rw [IdSet.mem_insert, or_comm]
      refine or_congr_right ⟨?_, fun h => h.1.symm⟩
      rintro rfl
      exact ⟨rfl, hadded⟩
    · refine ⟨Or.inl, fun h => h.resolve_right ?_⟩
      rintro ⟨rfl, hcounted⟩
      exact hadded hcounted

lemma ofFunction_eq (g : CallGraph) (levels : Levels) (isProject covered : Exclusion)
    (f : Function) : (ofFunction g levels isProject covered f).function = f ∧
      (ofFunction g levels isProject covered f).level = levels.level? f.id := by
  rw [ofFunction]
  refine List.foldlRecOn (motive := fun p : Prospect => p.function = f ∧ p.level = levels.level? f.id)
    (g.visits f.id) _ ⟨rfl, rfl⟩ fun p hp visit _ => ?_
  obtain ⟨hfunction, hlevel⟩ := reach_eq isProject covered p visit
  exact ⟨hfunction.trans hp.1, hlevel.trans hp.2⟩

/-- **A prospect starts with what its function newly reaches.** -/
theorem toFinset_nodes_ofFunction {levels : Levels} (hf : f ∈ suite.systemGraph.functions) :
    ((ofFunction suite.systemGraph levels (.ofProjects projects) overlap.covered f).nodes
      project).toFinset = suite.newlyReached projects overlap project f := by
  have hstart : f.id ∈ suite.systemGraph.ids := CallGraph.mem_ids_iff.2 ⟨f, hf, rfl⟩
  ext id
  have hempty : id ∉ (⟨f, levels.level? f.id, .empty, .empty⟩ : Prospect).nodes project := by
    cases project <;> simp [nodes]
  rw [IdSet.mem_toFinset, ofFunction, mem_nodes_foldl_reach, or_iff_right hempty,
    Suite.newlyReached, Finset.mem_sdiff, Suite.mem_reached_iff]
  constructor
  · rintro ⟨⟨h, n⟩, hvisit, rfl, hcovers, huncovered⟩
    obtain ⟨hmem, hdistance⟩ := (CallGraph.mem_visits_iff hstart).1 hvisit
    exact ⟨⟨h, hmem, rfl, hcovers, hdistance.reaches⟩, huncovered⟩
  · rintro ⟨⟨h, hmem, rfl, hcovers, hreaches⟩, huncovered⟩
    obtain ⟨n, hdistance⟩ := hreaches.exists_isDistance
    exact ⟨(h, n), (CallGraph.mem_visits_iff hstart).2 ⟨hmem, hdistance⟩, rfl, hcovers,
      huncovered⟩

/-! ## Ranks -/

/-- **How good a recommendation is**, in the order in which it is compared: how much of the project
it adds, how near to a root it is, how many other functions it adds, and its name. -/
abbrev Rank := ℕᵒᵈ ×ₗ ℕ∞ ×ₗ ℕᵒᵈ ×ₗ String

def rankOf (added : ℕ) (depth : ℕ∞) (others : ℕ) (name : String) : Rank :=
  toLex (toDual added, toLex (depth, toLex (toDual others, name)))

lemma rankOf_lt_iff {added added' others others' : ℕ} {depth depth' : ℕ∞} {name name' : String} :
    rankOf added depth others name < rankOf added' depth' others' name' ↔
      added' < added ∨ added = added' ∧ (depth < depth' ∨ depth = depth' ∧
        (others' < others ∨ others = others' ∧ name < name')) := by
  simp only [rankOf, Prod.Lex.toLex_lt_toLex, OrderDual.toDual_lt_toDual, OrderDual.toDual_inj]

def rank (p : Prospect) : Rank :=
  rankOf p.projectNodes.size (Levels.value p.level) p.otherNodes.size p.function.name

lemma nearer_iff {a b : Option Nat} : nearer a b = true ↔ Levels.value a < Levels.value b := by
  cases a <;> cases b <;> simp [nearer]

/-- **The order of recommendations compares ranks.** -/
theorem before_iff (a b : Prospect) : before a b = true ↔ rank a < rank b := by
  rw [rank, rank, rankOf_lt_iff, before]
  split_ifs with hproject hlevel hothers
  · simp [hproject]
  · have hvalue : Levels.value a.level ≠ Levels.value b.level := Levels.value_injective.ne hlevel
    rw [not_not] at hproject
    simp [hproject, hvalue, nearer_iff]
  · rw [not_not] at hproject hlevel
    simp [hproject, hlevel, hothers]
  · rw [not_not] at hproject hlevel hothers
    simp [hproject, hlevel, hothers]

end Prospect

end BenchCover
