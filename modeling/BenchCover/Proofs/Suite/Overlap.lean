import BenchCover.Proofs.FiniteSets
import BenchCover.Proofs.Graph.Distance
import BenchCover.Suite.Overlap

/-!
# What overlaps count

Which functions are counted on the three sides of an overlap.  The counts themselves play no part
here: only the functions that have one.

The nodes of a graph are its functions, or those of them that belong to the project
(`mem_keys_ofGraph`); the shared nodes are the nodes of both graphs; and the total of a suite has
the nodes of all of its micro benchmarks (`Suite.mem_total_iff`).
-/

namespace BenchCover

namespace NodeCounts

variable {a b : NodeCounts} {id : FunctionId}

/-- **The nodes of a graph.** -/
lemma mem_keys_ofGraph {projects : ProjectPrefixes} {projectOnly : Bool} {g : CallGraph} :
    id ∈ (ofGraph projects projectOnly g).keys ↔
      ∃ f ∈ g.functions, f.id = id ∧ (projectOnly = true → projects.covers f.name = true) := by
  rw [ofGraph, SortedMap.mem_keys_ofList]
  simp only [List.map_map, List.mem_map, List.mem_filter, Function.comp_apply, Bool.or_eq_true,
    Bool.not_eq_true', ← Bool.not_eq_true]
  constructor
  · rintro ⟨f, ⟨hf, hcounted⟩, rfl⟩
    exact ⟨f, hf, rfl, fun honly => hcounted.resolve_left (not_not_intro honly)⟩
  · rintro ⟨f, hf, rfl, hcounted⟩
    exact ⟨f, ⟨hf, (em _).symm.imp_right hcounted⟩, rfl⟩

@[simp] lemma mem_keys_add : id ∈ (a.add b).keys ↔ id ∈ a.keys ∨ id ∈ b.keys :=
  SortedMap.mem_keys_foldl_upsert fun n count => count.getD 0 + n

@[simp] lemma mem_keys_shared : id ∈ (a.shared b).keys ↔ id ∈ a.keys ∧ id ∈ b.keys := by
  rw [shared, SortedMap.keys_map, SortedMap.mem_keys_filter]
  simp only [SortedMap.contains_iff, exists_and_right, SortedMap.mem_keys_iff,
    SortedMap.lookup_eq_some_iff]

end NodeCounts

namespace NodeOverlap

variable {overlap other : NodeOverlap} {side : OverlapSide} {id : FunctionId}

@[simp] lemma nodes_withShare (overlap : NodeOverlap) (side : OverlapSide) :
    overlap.withShare.nodes side = overlap.nodes side := by
  cases side <;> rfl

lemma mem_nodes_add : id ∈ ((overlap.add other).nodes side).keys ↔
    id ∈ (overlap.nodes side).keys ∨ id ∈ (other.nodes side).keys := by
  cases side <;> exact NodeCounts.mem_keys_add

lemma mem_nodes_foldl_add {rows : List NodeOverlap} :
    id ∈ ((rows.foldl add overlap).nodes side).keys ↔
      id ∈ (overlap.nodes side).keys ∨ ∃ row ∈ rows, id ∈ (row.nodes side).keys := by
  induction rows generalizing overlap with
  | nil => simp
  | cons row rest ih => rw [List.foldl_cons, ih, mem_nodes_add, List.exists_mem_cons_iff, or_assoc]

lemma mem_nodes_empty {systemName microName : String} :
    id ∉ ((empty systemName microName).nodes side).keys := by
  cases side <;> exact List.not_mem_nil

variable {projects : ProjectPrefixes} {projectOnly : Bool} {systemName microName : String}
  {system micro : CallGraph}

/-- A function is shared if it is a node of both graphs. -/
lemma mem_nodes_between_shared :
    id ∈ ((between projects projectOnly systemName microName system micro).nodes .shared).keys ↔
      id ∈ (NodeCounts.ofGraph projects projectOnly system).keys ∧
        id ∈ (NodeCounts.ofGraph projects projectOnly micro).keys :=
  NodeCounts.mem_keys_shared

lemma names_foldl_add (rows : List NodeOverlap) (overlap : NodeOverlap) :
    (rows.foldl add overlap).systemName = overlap.systemName ∧
      (rows.foldl add overlap).microName = overlap.microName := by
  induction rows generalizing overlap with
  | nil => exact ⟨rfl, rfl⟩
  | cons row rest ih => exact ih (overlap.add row)

end NodeOverlap

namespace Suite

variable {suite : Suite} {projects : ProjectPrefixes} {projectOnly : Bool} {id : FunctionId}
  {key : String}

/-- The row of a micro benchmark. -/
lemma lookup_overlap :
    (suite.overlap projects projectOnly).micros.lookup key
      = (suite.micros.lookup key).map
          (NodeOverlap.between projects projectOnly suite.system key suite.systemGraph) :=
  SortedMap.lookup_map _ _ _

lemma lookup_overlap_of_some {micro : CallGraph} (hmicro : suite.micros.lookup key = some micro) :
    (suite.overlap projects projectOnly).micros.lookup key
      = some (.between projects projectOnly suite.system key suite.systemGraph micro) := by
  rw [lookup_overlap, hmicro, Option.map_some]

lemma keys_overlap : (suite.overlap projects projectOnly).micros.keys = suite.micros.keys :=
  SortedMap.keys_map _ _

lemma names_total (suite : Suite) (projects : ProjectPrefixes) (projectOnly : Bool) :
    (suite.overlap projects projectOnly).total.systemName = suite.system ∧
      (suite.overlap projects projectOnly).total.microName = allMicros :=
  NodeOverlap.names_foldl_add _ (.empty suite.system allMicros)

/-- **The total of a suite** has the nodes of all rows. -/
theorem mem_total_iff (suite : Suite) (projects : ProjectPrefixes) (projectOnly : Bool)
    (side : OverlapSide) (id : FunctionId) :
    id ∈ ((suite.overlap projects projectOnly).total.nodes side).keys ↔
      ∃ key micro, suite.micros.lookup key = some micro ∧
        id ∈ ((NodeOverlap.between projects projectOnly suite.system key suite.systemGraph
          micro).nodes side).keys := by
  simp only [overlap, NodeOverlap.nodes_withShare, NodeOverlap.mem_nodes_foldl_add,
    NodeOverlap.mem_nodes_empty, false_or, SortedMap.values, SortedMap.map, List.map_map,
    List.mem_map, SortedMap.lookup_eq_some_iff]
  constructor
  · rintro ⟨_, ⟨⟨key, micro⟩, hentry, rfl⟩, hid⟩
    exact ⟨key, micro, hentry, hid⟩
  · rintro ⟨key, micro, hentry, hid⟩
    exact ⟨_, ⟨(key, micro), hentry, rfl⟩, hid⟩

/-- A suite shares with its system the nodes of the system that its micro benchmarks have. -/
lemma mem_sharedNodes_total_iff (suite : Suite) (projects : ProjectPrefixes)
    (projectOnly : Bool) :
    id ∈ (suite.overlap projects projectOnly).total.sharedNodes.keys ↔
      id ∈ (NodeCounts.ofGraph projects projectOnly suite.systemGraph).keys ∧
        id ∈ (suite.overlap projects projectOnly).total.microNodes.keys := by
  have hshared := suite.mem_total_iff projects projectOnly .shared id
  have hmicro := suite.mem_total_iff projects projectOnly .micro id
  simp only [NodeOverlap.nodes] at hshared hmicro
  rw [hshared, hmicro]
  constructor
  · rintro ⟨key, micro, hmicro, hid⟩
    obtain ⟨hsystem, hid⟩ := NodeOverlap.mem_nodes_between_shared.1 hid
    exact ⟨hsystem, key, micro, hmicro, hid⟩
  · rintro ⟨hsystem, key, micro, hmicro, hid⟩
    exact ⟨key, micro, hmicro, NodeOverlap.mem_nodes_between_shared.2 ⟨hsystem, hid⟩⟩

end Suite

/-- The functions that the suite covers are those that some micro benchmark shares. -/
lemma SuiteOverlap.covered_excludes {overlap : SuiteOverlap} {f : Function} {level : Option Nat} :
    overlap.covered.excludes f level = true ↔ f.id ∈ overlap.total.sharedNodes.keySet := by
  rw [covered, SortedMap.contains_iff, SortedMap.mem_keySet]

end BenchCover
