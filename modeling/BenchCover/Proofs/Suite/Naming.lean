import BenchCover.Proofs.Function.Spelling
import BenchCover.Proofs.Graph.Naming
import BenchCover.Proofs.Suite.Determinacy
import BenchCover.Proofs.Suite.Overlap

/-!
# Suites that were read with one registry

`suite.BuiltWith registry` says that all graphs of a suite are named by one registry.  Then every
set of ids that an analysis makes is given by names: the nodes of a graph (`NamedBy.spells_ofGraph`),
the sides of a row (`BuiltWith.spells_between`), and what a micro benchmark covers for the project
(`BuiltWith.spells_coverOf`).

The names of the last do not depend on whether the overlap was made for the project only, because
a function is left out by its name, before or after the intersection.
-/

namespace BenchCover

/-! ## Graphs -/

namespace CallGraph

variable {g : CallGraph} {registry : Registry}

/-- **The nodes of a graph by name.** -/
lemma NamedBy.spells_ofGraph (hg : g.NamedBy registry) (projects : ProjectPrefixes)
    (projectOnly : Bool) :
    registry.Spells (NodeCounts.ofGraph projects projectOnly g).keySet fun name =>
      name ∈ g.names ∧ (projectOnly = true → projects.covers name = true) where
  mem_iff := by
    intro id
    rw [SortedMap.mem_keySet, NodeCounts.mem_keys_ofGraph]
    constructor
    · rintro ⟨f, hf, rfl, hcovers⟩
      exact ⟨f.name, hg f hf, List.mem_map_of_mem hf, hcovers⟩
    · rintro ⟨name, hname, hmem, hcovers⟩
      obtain ⟨f, hf, rfl⟩ := mem_names_iff.1 hmem
      exact ⟨f, hf, Registry.id_unique (hg f hf) hname, hcovers⟩
  known := by
    rintro name ⟨hmem, -⟩
    obtain ⟨f, hf, rfl⟩ := mem_names_iff.1 hmem
    exact ⟨f.id, hg f hf⟩

end CallGraph

/-! ## Rows -/

/-- **The names on a side of a row**, which is about a system benchmark and a micro benchmark. -/
def OverlapSide.names (side : OverlapSide) (projects : ProjectPrefixes) (projectOnly : Bool)
    (system micro : CallGraph) (name : String) : Prop :=
  (side ≠ .micro → name ∈ system.names) ∧ (side ≠ .system → name ∈ micro.names) ∧
    (projectOnly = true → projects.covers name = true)

/-- **What a strategy aims at**, by name. -/
def Strategy.names (strategy : Strategy) (projects : ProjectPrefixes)
    (system micro : CallGraph) (name : String) : Prop :=
  strategy.side.names projects true system micro name

section Rows

variable {registry : Registry} {system micro : CallGraph}

lemma spells_between (hsystem : system.NamedBy registry) (hmicro : micro.NamedBy registry)
    (projects : ProjectPrefixes) (projectOnly : Bool) (systemName microName : String)
    (side : OverlapSide) :
    registry.Spells ((NodeOverlap.between projects projectOnly systemName microName system
      micro).nodes side).keySet (side.names projects projectOnly system micro) := by
  cases side with
  | system =>
    exact (hsystem.spells_ofGraph projects projectOnly).congr fun name => by
      simp [OverlapSide.names]
  | micro =>
    exact (hmicro.spells_ofGraph projects projectOnly).congr fun name => by
      simp [OverlapSide.names]
  | shared =>
    have hshared : ((NodeOverlap.between projects projectOnly systemName microName system
        micro).nodes .shared).keySet
        = (NodeCounts.ofGraph projects projectOnly system).keySet ∩
          (NodeCounts.ofGraph projects projectOnly micro).keySet := by
      ext id
      simp [NodeOverlap.mem_nodes_between_shared]
    rw [hshared]
    exact ((hsystem.spells_ofGraph projects projectOnly).inter
      (hmicro.spells_ofGraph projects projectOnly)).congr fun name => by
        simp only [OverlapSide.names]
        tauto

end Rows

/-! ## Suites -/

namespace Suite

/-- **A suite whose graphs were all read with one registry.** -/
structure BuiltWith (suite : Suite) (registry : Registry) : Prop where
  system : suite.systemGraph.NamedBy registry
  micros : ∀ key micro, suite.micros.lookup key = some micro → micro.NamedBy registry

namespace BuiltWith

variable {suite : Suite} {registry : Registry} {key name : String} {micro : CallGraph}
  {f : Function} {id : FunctionId}

/-- The function that an id stands for has the name that is known for the id. -/
lemma name_functionFor? (h : suite.BuiltWith registry)
    (hf : suite.functionFor? key id = some f) : registry.name id = .ok f.name := by
  rw [functionFor?, Option.or_eq_some_iff] at hf
  have hnamed : ∀ g : CallGraph, g.NamedBy registry → g.function? id = some f →
      registry.name id = .ok f.name := by
    intro g hg hfound
    obtain ⟨hmem, hid⟩ := CallGraph.function?_eq_some_iff.1 hfound
    exact hid ▸ hg f hmem
  rcases hf with hf | ⟨-, hf⟩
  · obtain ⟨micro, hmicro, hfound⟩ := Option.bind_eq_some_iff.1 hf
    exact hnamed micro (h.micros key micro hmicro) hfound
  · exact hnamed suite.systemGraph h.system hf

/-- **What a micro benchmark covers for the project, by name**: whether functions are left out by
name when the overlap is made or only when candidates are. -/
theorem spells_coverOf (h : suite.BuiltWith registry) (projects : ProjectPrefixes)
    (projectOnly : Bool) (strategy : Strategy) (hmicro : suite.micros.lookup key = some micro) :
    registry.Spells
      (suite.coverOf (suite.overlap projects projectOnly) strategy
        (Exclusion.ofProjects projects).negate key)
      (strategy.names projects suite.systemGraph micro) := by
  have hside := spells_between h.system (h.micros key micro hmicro) projects projectOnly
    suite.system key strategy.side
  constructor
  · intro id
    rw [mem_coverOf_iff (lookup_overlap_of_some hmicro), ← SortedMap.mem_keySet, hside.mem_iff]
    constructor
    · rintro ⟨⟨name, hname, hsystem, hmicro, -⟩, f, hf, hcovers⟩
      obtain rfl : f.name = name :=
        Except.ok.inj ((h.name_functionFor? hf).symm.trans hname)
      exact ⟨f.name, hname, hsystem, hmicro,
        fun _ => by simpa [Exclusion.negate, Exclusion.ofProjects] using hcovers⟩
    · rintro ⟨name, hname, hsystem, hmem, hcovers⟩
      refine ⟨⟨name, hname, hsystem, hmem, fun _ => hcovers rfl⟩, ?_⟩
      -- a function of that name is in the graph of the micro benchmark, whatever the strategy
      have hcounted : strategy.side ≠ .system := by cases strategy <;> simp [Strategy.side]
      obtain ⟨f, hf, rfl⟩ := CallGraph.mem_names_iff.1 (hmem hcounted)
      obtain rfl : f.id = id :=
        Registry.id_unique (h.micros key micro hmicro f hf) hname
      refine ⟨f, ?_, by simp [Exclusion.negate, Exclusion.ofProjects, hcovers rfl]⟩
      rw [functionFor?, hmicro, Option.bind_some, CallGraph.function?_eq_some_iff.2 ⟨hf, rfl⟩,
        Option.some_or]
  · rintro name ⟨hsystem, hmem, hcovers⟩
    exact hside.known name ⟨hsystem, hmem, fun _ => hcovers rfl⟩

/-- **The time of an id** is that of the function of the system with its name. -/
lemma systemTimeOf_of_mem (h : suite.BuiltWith registry) (hf : f ∈ suite.systemGraph.functions)
    (hname : registry.name id = .ok f.name) : suite.systemTimeOf id = f.selfTime := by
  have hid : f.id = id := Registry.id_unique (h.system f hf) hname
  rw [systemTimeOf, CallGraph.function?_eq_some_iff.2 ⟨hf, hid⟩, Option.map_some,
    Option.getD_some]

/-- Functions that the system does not have take none of its time. -/
lemma systemTimeOf_of_notMem (h : suite.BuiltWith registry)
    (hname : registry.name id = .ok name) (hnot : name ∉ suite.systemGraph.names) :
    suite.systemTimeOf id = .zero := by
  cases hfound : suite.systemGraph.function? id with
  | none => rw [systemTimeOf, hfound, Option.map_none, Option.getD_none]
  | some f =>
    obtain ⟨hf, rfl⟩ := CallGraph.function?_eq_some_iff.1 hfound
    have hsame : f.name = name := Except.ok.inj ((h.system f hf).symm.trans hname)
    exact absurd (CallGraph.mem_names_iff.2 ⟨f, hf, hsame⟩) hnot

end BuiltWith

end Suite

end BenchCover
