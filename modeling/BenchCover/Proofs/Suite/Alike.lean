import BenchCover.Proofs.Dot.Reading
import BenchCover.Proofs.Suite.Extension
import BenchCover.Proofs.Suite.Naming
import BenchCover.Proofs.Suite.Reselection

/-!
# Suites that are alike

Two suites are **alike** if their graphs have the same functions by name and with the same times, but
were read with registries that may give them other ids.  What the analyses tell of alike suites is
the same.

**Counts.**  Sets of the same names have the same size, so the rows of the overlaps and their total
count the same (`Alike.sameCounts_row`, `Alike.sameCounts_total`).

**Selections.**  Translating the ids of one registry into those of the other renames what the micro
benchmarks cover, and ranks and times depend on names only (`Alike.select_eq`).

**Recommendations** tell ids.  They are the same if the suites have the same system graph, because
shared functions are functions of the system (`SameSystem.recommend_eq`).

Minimizing and extending alike suites gives alike suites: `Alike.minimize`, `SameSystem.extend`.
-/

namespace BenchCover

namespace CallGraph

variable {g g' : CallGraph} {f : Function} {name : String}

/-- **Graphs with the same functions**, by name and with their times. -/
def SameFunctions (g g' : CallGraph) : Prop :=
  ∀ label, label ∈ g.labels ↔ label ∈ g'.labels

lemma SameFunctions.refl (g : CallGraph) : g.SameFunctions g :=
  fun _ => Iff.rfl

lemma SameFunctions.of_labels (h : g.labels = g'.labels) : g.SameFunctions g' :=
  fun label => by rw [h]

lemma SameFunctions.exists_mem (h : g.SameFunctions g') (hf : f ∈ g.functions) :
    ∃ f' ∈ g'.functions, f'.name = f.name ∧ f'.selfTime = f.selfTime := by
  obtain ⟨f', hf', hlabel⟩ := List.mem_map.1 ((h _).1 (List.mem_map_of_mem hf))
  exact ⟨f', hf', congrArg Prod.fst hlabel, congrArg (·.2.1) hlabel⟩

lemma SameFunctions.symm (h : g.SameFunctions g') : g'.SameFunctions g :=
  fun label => (h label).symm

lemma SameFunctions.mem_names_iff (h : g.SameFunctions g') : name ∈ g.names ↔ name ∈ g'.names := by
  have hsub : ∀ {g g' : CallGraph}, g.SameFunctions g' → name ∈ g.names → name ∈ g'.names := by
    intro g g' h hname
    obtain ⟨f, hf, rfl⟩ := CallGraph.mem_names_iff.1 hname
    obtain ⟨f', hf', hsame, -⟩ := h.exists_mem hf
    exact CallGraph.mem_names_iff.2 ⟨f', hf', hsame⟩
  exact ⟨hsub h, hsub h.symm⟩

end CallGraph

/-! ## Counts -/

namespace NodeOverlap

variable {a b : NodeOverlap}

/-- **Rows that count the same**, of functions that may have other ids. -/
structure SameCounts (a b : NodeOverlap) : Prop where
  systemName : a.systemName = b.systemName
  microName : a.microName = b.microName
  size : ∀ side, (a.nodes side).size = (b.nodes side).size
  share : a.share = b.share

lemma sameCounts_withShare (hsystem : a.systemName = b.systemName)
    (hmicro : a.microName = b.microName)
    (hsize : ∀ side, (a.nodes side).size = (b.nodes side).size) :
    a.withShare.SameCounts b.withShare where
  systemName := hsystem
  microName := hmicro
  size := fun side => by rw [nodes_withShare, nodes_withShare, hsize side]
  share := by
    simp only [withShare]
    rw [show a.systemNodes.size = b.systemNodes.size from hsize .system,
      show a.sharedNodes.size = b.sharedNodes.size from hsize .shared]

end NodeOverlap

lemma OverlapSide.names_congr {system system' micro micro' : CallGraph} (side : OverlapSide)
    (projects : ProjectPrefixes) (projectOnly : Bool) (hsystem : system.SameFunctions system')
    (hmicro : micro.SameFunctions micro') (name : String) :
    side.names projects projectOnly system micro name
      ↔ side.names projects projectOnly system' micro' name := by
  simp only [OverlapSide.names, hsystem.mem_names_iff, hmicro.mem_names_iff]

namespace Suite

variable {suite suite' : Suite} {projects : ProjectPrefixes} {projectOnly : Bool}
  {strategy : Strategy} {key : String} {micro micro' : CallGraph}

/-- **The total of a suite by name.** -/
lemma BuiltWith.spells_total {registry : Registry} (h : suite.BuiltWith registry)
    (projects : ProjectPrefixes) (projectOnly : Bool) (side : OverlapSide) :
    registry.Spells ((suite.overlap projects projectOnly).total.nodes side).keySet fun name =>
      ∃ key micro, suite.micros.lookup key = some micro ∧
        side.names projects projectOnly suite.systemGraph micro name where
  mem_iff := by
    intro id
    rw [SortedMap.mem_keySet, mem_total_iff]
    constructor
    · rintro ⟨key, micro, hmicro, hid⟩
      obtain ⟨name, hname, hside⟩ := ((spells_between h.system (h.micros key micro hmicro) projects
        projectOnly suite.system key side).mem_iff id).1 (SortedMap.mem_keySet.2 hid)
      exact ⟨name, hname, key, micro, hmicro, hside⟩
    · rintro ⟨name, hname, key, micro, hmicro, hside⟩
      have hrow := spells_between h.system (h.micros key micro hmicro) projects projectOnly
        suite.system key side
      exact ⟨key, micro, hmicro, SortedMap.mem_keySet.1 (hrow.mem_of_name hname hside)⟩
  known := by
    rintro name ⟨key, micro, hmicro, hside⟩
    exact (spells_between h.system (h.micros key micro hmicro) projects projectOnly suite.system key
      side).known name hside

/-! ## Alike suites -/

/-- **Suites that differ in the ids of functions only.** -/
structure Alike (suite suite' : Suite) : Prop where
  config : suite.config = suite'.config
  system : suite.system = suite'.system
  systemGraph : suite.systemGraph.SameFunctions suite'.systemGraph
  micros : ∀ key, Option.Rel CallGraph.SameFunctions (suite.micros.lookup key)
    (suite'.micros.lookup key)
  built : suite.BuiltWith suite.registry
  built' : suite'.BuiltWith suite'.registry

namespace Alike

lemma sameFunctions (h : suite.Alike suite') (hmicro : suite.micros.lookup key = some micro)
    (hmicro' : suite'.micros.lookup key = some micro') : micro.SameFunctions micro' := by
  have hrel := h.micros key
  rw [hmicro, hmicro'] at hrel
  cases hrel with
  | some hsame => exact hsame

lemma exists_micro (h : suite.Alike suite') (hmicro : suite.micros.lookup key = some micro) :
    ∃ micro', suite'.micros.lookup key = some micro' ∧ micro.SameFunctions micro' := by
  have hrel := h.micros key
  rw [hmicro] at hrel
  cases hlookup : suite'.micros.lookup key with
  | none =>
    rw [hlookup] at hrel
    cases hrel
  | some micro' => exact ⟨micro', rfl, h.sameFunctions hmicro hlookup⟩

lemma symm (h : suite.Alike suite') : suite'.Alike suite where
  config := h.config.symm
  system := h.system.symm
  systemGraph := h.systemGraph.symm
  micros := fun key => by
    have hrel := h.micros key
    cases hlookup : suite.micros.lookup key with
    | none =>
      rw [hlookup] at hrel
      cases hlookup' : suite'.micros.lookup key with
      | none => exact .none
      | some micro' =>
        rw [hlookup'] at hrel
        cases hrel
    | some micro =>
      obtain ⟨micro', hlookup', hsame⟩ := h.exists_micro hlookup
      rw [hlookup']
      exact .some hsame.symm
  built := h.built'
  built' := h.built

lemma keys_eq (h : suite.Alike suite') : suite.micros.keys = suite'.micros.keys := by
  refine SortedMap.keys_eq_of_mem fun key => ?_
  rw [SortedMap.mem_keys_iff, SortedMap.mem_keys_iff]
  constructor
  · rintro ⟨micro, hmicro⟩
    obtain ⟨micro', hmicro', -⟩ := h.exists_micro hmicro
    exact ⟨micro', hmicro'⟩
  · rintro ⟨micro', hmicro'⟩
    obtain ⟨micro, hmicro, -⟩ := h.symm.exists_micro hmicro'
    exact ⟨micro, hmicro⟩

/-! ### Counts -/

/-- The rows of a micro benchmark count the same. -/
lemma sameCounts_row (h : suite.Alike suite') (projects : ProjectPrefixes) (projectOnly : Bool)
    (hmicro : suite.micros.lookup key = some micro)
    (hmicro' : suite'.micros.lookup key = some micro') :
    (NodeOverlap.between projects projectOnly suite.system key suite.systemGraph micro).SameCounts
      (.between projects projectOnly suite'.system key suite'.systemGraph micro') := by
  refine NodeOverlap.sameCounts_withShare h.system rfl fun side => ?_
  have hspells := spells_between h.built.system (h.built.micros key micro hmicro) projects
    projectOnly suite.system key side
  have hspells' := spells_between h.built'.system (h.built'.micros key micro' hmicro') projects
    projectOnly suite'.system key side
  have hcard := hspells.card_eq (hspells'.congr fun name =>
    (side.names_congr projects projectOnly h.systemGraph (h.sameFunctions hmicro hmicro')
      name).symm)
  rw [SortedMap.card_keySet, SortedMap.card_keySet, NodeOverlap.between, NodeOverlap.between,
    NodeOverlap.nodes_withShare, NodeOverlap.nodes_withShare] at hcard
  exact hcard

lemma exists_names_iff (h : suite.Alike suite') (projects : ProjectPrefixes) (projectOnly : Bool)
    (side : OverlapSide) (name : String) :
    (∃ key micro, suite.micros.lookup key = some micro ∧
        side.names projects projectOnly suite.systemGraph micro name) ↔
      ∃ key micro, suite'.micros.lookup key = some micro ∧
        side.names projects projectOnly suite'.systemGraph micro name := by
  have hforward : ∀ {suite suite' : Suite}, suite.Alike suite' →
      (∃ key micro, suite.micros.lookup key = some micro ∧
        side.names projects projectOnly suite.systemGraph micro name) →
      ∃ key micro, suite'.micros.lookup key = some micro ∧
        side.names projects projectOnly suite'.systemGraph micro name := by
    rintro suite suite' h ⟨key, micro, hmicro, hside⟩
    obtain ⟨micro', hmicro', hsame⟩ := h.exists_micro hmicro
    exact ⟨key, micro', hmicro',
      (side.names_congr projects projectOnly h.systemGraph hsame name).1 hside⟩
  exact ⟨hforward h, hforward h.symm⟩

/-- **The totals count the same.** -/
theorem sameCounts_total (h : suite.Alike suite') (projects : ProjectPrefixes)
    (projectOnly : Bool) :
    (suite.overlap projects projectOnly).total.SameCounts
      (suite'.overlap projects projectOnly).total := by
  obtain ⟨hsystem, hmicro⟩ := suite.names_total projects projectOnly
  obtain ⟨hsystem', hmicro'⟩ := suite'.names_total projects projectOnly
  refine NodeOverlap.sameCounts_withShare ?_ ?_ fun side => ?_
  · exact hsystem.trans (h.system.trans hsystem'.symm)
  · exact hmicro.trans hmicro'.symm
  · have hcard := (h.built.spells_total projects projectOnly side).card_eq
      ((h.built'.spells_total projects projectOnly side).congr fun name =>
        (h.exists_names_iff projects projectOnly side name).symm)
    rw [SortedMap.card_keySet, SortedMap.card_keySet] at hcard
    simpa only [overlap, NodeOverlap.nodes_withShare] using hcard

/-! ### Selections -/

lemma spells_coverOf (h : suite.Alike suite') (projects : ProjectPrefixes) (projectOnly : Bool)
    (strategy : Strategy) (hmicro : suite.micros.lookup key = some micro) :
    suite.registry.Spells
        (suite.coverOf (suite.overlap projects projectOnly) strategy
          (Exclusion.ofProjects projects).negate key)
        (strategy.names projects suite.systemGraph micro) ∧
      suite'.registry.Spells
        (suite'.coverOf (suite'.overlap projects projectOnly) strategy
          (Exclusion.ofProjects projects).negate key)
        (strategy.names projects suite.systemGraph micro) := by
  obtain ⟨micro', hmicro', hsame⟩ := h.exists_micro hmicro
  exact ⟨h.built.spells_coverOf projects projectOnly strategy hmicro,
    (h.built'.spells_coverOf projects projectOnly strategy hmicro').congr fun name =>
      (strategy.side.names_congr projects true h.systemGraph hsame name).symm⟩

/-- **What the micro benchmarks cover is renamed.** -/
lemma renamed (h : suite.Alike suite') (projects : ProjectPrefixes) (projectOnly : Bool)
    (strategy : Strategy) :
    Renamed (suite.registry.translate suite'.registry) suite.micros.keys
      (suite.coverOf (suite.overlap projects projectOnly) strategy
        (Exclusion.ofProjects projects).negate)
      (suite'.coverOf (suite'.overlap projects projectOnly) strategy
        (Exclusion.ofProjects projects).negate) where
  image := by
    intro key hkey
    obtain ⟨micro, hmicro⟩ := SortedMap.mem_keys_iff.1 hkey
    obtain ⟨hspells, hspells'⟩ := h.spells_coverOf projects projectOnly strategy hmicro
    exact hspells.image_translate hspells'
  inj := by
    intro key hkey other hother id hid id' hid' hsame
    obtain ⟨micro, hmicro⟩ := SortedMap.mem_keys_iff.1 hkey
    obtain ⟨micro', hmicro'⟩ := SortedMap.mem_keys_iff.1 hother
    obtain ⟨hspells, hspells'⟩ := h.spells_coverOf projects projectOnly strategy hmicro
    obtain ⟨hother, hother'⟩ := h.spells_coverOf projects projectOnly strategy hmicro'
    exact hspells.translate_injOn hspells' hother hother'.known hid hid' hsame

/-- Functions of the same name take the same time of the system. -/
lemma systemTimeOf_eq (h : suite.Alike suite') {id id' : FunctionId} {name : String}
    (hname : suite.registry.name id = .ok name) (hname' : suite'.registry.name id' = .ok name) :
    suite.systemTimeOf id = suite'.systemTimeOf id' := by
  by_cases hmem : name ∈ suite.systemGraph.names
  · obtain ⟨f, hf, rfl⟩ := CallGraph.mem_names_iff.1 hmem
    obtain ⟨f', hf', hsame, htime⟩ := h.systemGraph.exists_mem hf
    rw [h.built.systemTimeOf_of_mem hf hname,
      h.built'.systemTimeOf_of_mem hf' (hsame.symm ▸ hname'), htime]
  · have hnot : name ∉ suite'.systemGraph.names := fun hmem' =>
      hmem (h.systemGraph.mem_names_iff.2 hmem')
    rw [h.built.systemTimeOf_of_notMem hname hmem, h.built'.systemTimeOf_of_notMem hname' hnot]

/-- **The same micro benchmarks are selected**, in the same order and with the same numbers. -/
theorem select_eq (h : suite.Alike suite') (projects : ProjectPrefixes) (projectOnly : Bool)
    (strategy : Strategy) :
    suite.select (suite.overlap projects projectOnly) strategy (Exclusion.ofProjects projects).negate
      = suite'.select (suite'.overlap projects projectOnly) strategy
          (Exclusion.ofProjects projects).negate := by
  have hselection := suite.isSelection_select (suite.overlap projects projectOnly) strategy
    (Exclusion.ofProjects projects).negate
  have hselection' := suite'.isSelection_select (suite'.overlap projects projectOnly) strategy
    (Exclusion.ofProjects projects).negate
  rw [keys_overlap] at hselection hselection'
  rw [← h.keys_eq] at hselection'
  refine hselection.unique_of_renamed hselection' (h.renamed projects projectOnly strategy)
    fun key hkey => ?_
  obtain ⟨micro, hmicro⟩ := SortedMap.mem_keys_iff.1 hkey
  obtain ⟨hspells, hspells'⟩ := h.spells_coverOf projects projectOnly strategy hmicro
  refine congrArg Duration.mk (hspells.sum_eq hspells' fun id id' name hname hname' => ?_).symm
  rw [h.systemTimeOf_eq hname hname']

/-! ### Fewer and more micro benchmarks -/

lemma withMicros {kept kept' : SortedMap String CallGraph} (h : suite.Alike suite')
    (hkept : ∀ key, Option.Rel CallGraph.SameFunctions (kept.lookup key) (kept'.lookup key))
    (hnamed : ∀ key micro, kept.lookup key = some micro → micro.NamedBy suite.registry)
    (hnamed' : ∀ key micro, kept'.lookup key = some micro → micro.NamedBy suite'.registry) :
    (suite.withMicros kept).Alike (suite'.withMicros kept') where
  config := h.config
  system := h.system
  systemGraph := h.systemGraph
  micros := hkept
  built := ⟨h.built.system, hnamed⟩
  built' := ⟨h.built'.system, hnamed'⟩

/-- **Minimizing alike suites** gives alike suites and the same selection. -/
theorem minimize (h : suite.Alike suite') (projects : ProjectPrefixes) (projectOnly : Bool)
    (strategy : Strategy) :
    ∃ minimized minimized',
      suite.minimize (suite.overlap projects projectOnly) strategy
        (Exclusion.ofProjects projects).negate = .ok minimized ∧
      suite'.minimize (suite'.overlap projects projectOnly) strategy
        (Exclusion.ofProjects projects).negate = .ok minimized' ∧
      minimized.suite.Alike minimized'.suite ∧ minimized.selected = minimized'.selected := by
  obtain ⟨kept, hok, hkept⟩ := exists_minimize suite (suite.overlap projects projectOnly) strategy
    (Exclusion.ofProjects projects).negate (by rw [keys_overlap]; exact List.Subset.refl _)
  obtain ⟨kept', hok', hkept'⟩ := exists_minimize suite' (suite'.overlap projects projectOnly)
    strategy (Exclusion.ofProjects projects).negate
    (by rw [keys_overlap]; exact List.Subset.refl _)
  have hselect := h.select_eq projects projectOnly strategy
  refine ⟨_, _, hok, hok', h.withMicros (fun key => ?_) (fun key micro hmicro => ?_)
    fun key micro hmicro => ?_, hselect⟩
  · rw [hkept, hkept', hselect]
    split_ifs
    · exact h.micros key
    · exact .none
  · rw [hkept] at hmicro
    split_ifs at hmicro
    exact h.built.micros key micro hmicro
  · rw [hkept'] at hmicro
    split_ifs at hmicro
    exact h.built'.micros key micro hmicro

end Alike

/-! ## Suites with the same system graph -/

/-- **Alike suites with the same system graph**, so that the functions of the system have the same
ids in both. -/
structure SameSystem (suite suite' : Suite) : Prop extends Alike suite suite' where
  graph : suite.systemGraph = suite'.systemGraph

namespace SameSystem

/-- The same functions of the system are covered. -/
lemma covered_eq (h : suite.SameSystem suite') (projects : ProjectPrefixes) (projectOnly : Bool) :
    (suite.overlap projects projectOnly).covered = (suite'.overlap projects projectOnly).covered := by
  have hshared : ((suite.overlap projects projectOnly).total.nodes .shared).keySet
      = ((suite'.overlap projects projectOnly).total.nodes .shared).keySet := by
    refine (h.built.spells_total projects projectOnly .shared).eq_of_common
      ((h.built'.spells_total projects projectOnly .shared).congr fun name =>
        (h.exists_names_iff projects projectOnly .shared name).symm) ?_
    rintro name ⟨key, micro, -, hsystem, -⟩
    obtain ⟨f, hf, rfl⟩ := CallGraph.mem_names_iff.1 (hsystem (by decide))
    exact ⟨f.id, h.built.system f hf, h.built'.system f (h.graph ▸ hf)⟩
  refine congrArg Exclusion.mk (funext fun f => funext fun _ => ?_)
  rw [Bool.eq_iff_iff, SortedMap.contains_iff, SortedMap.contains_iff, ← SortedMap.mem_keySet,
    ← SortedMap.mem_keySet]
  exact Finset.ext_iff.1 hshared f.id

/-- **The same functions are recommended**, with the same numbers. -/
theorem recommend_eq (h : suite.SameSystem suite') (projects : ProjectPrefixes) (count : Nat) :
    recommend projects suite (suite.overlap projects true) count
      = recommend projects suite' (suite'.overlap projects true) count := by
  rw [recommend, recommend, prospects, prospects, h.graph, h.covered_eq projects true]

/-- The part of the system graph that a function reaches is named as the system graph is. -/
lemma namedBy_reachableSubgraph {g : CallGraph} {registry : Registry} (hg : g.NamedBy registry)
    (start : FunctionId) : (g.reachableSubgraph start).NamedBy registry := by
  intro f hf
  rw [CallGraph.functions_reachableSubgraph] at hf
  by_cases hstart : start ∈ g.ids
  · exact hg f ((CallGraph.mem_reachable_iff hstart).1 hf).1
  · rw [CallGraph.reachable, CallGraph.visits_eq_nil hstart] at hf
    cases hf

lemma insert (h : suite.SameSystem suite') (key : String) {g : CallGraph}
    (hg : g.NamedBy suite.registry) (hg' : g.NamedBy suite'.registry) :
    (suite.withMicros (suite.micros.insert key g)).SameSystem
      (suite'.withMicros (suite'.micros.insert key g)) where
  toAlike := by
    have hnamed : ∀ {suite : Suite}, suite.BuiltWith suite.registry → g.NamedBy suite.registry →
        ∀ other micro, (suite.micros.insert key g).lookup other = some micro →
          micro.NamedBy suite.registry := by
      intro suite hbuilt hg other micro hmicro
      rw [SortedMap.lookup_insert] at hmicro
      split_ifs at hmicro
      · exact Option.some.inj hmicro ▸ hg
      · exact hbuilt.micros other micro hmicro
    refine h.toAlike.withMicros (fun other => ?_) (hnamed h.built hg) (hnamed h.built' hg')
    rw [SortedMap.lookup_insert, SortedMap.lookup_insert]
    split_ifs
    · exact .some (.refl g)
    · exact h.micros other
  graph := h.graph

/-- **Extending alike suites** by what is recommended gives alike suites. -/
theorem extend (h : suite.SameSystem suite') (projects : ProjectPrefixes) (count : Nat) :
    (suite.extend projects (suite.overlap projects true) recommend count).suite.SameSystem
        (suite'.extend projects (suite'.overlap projects true) recommend count).suite ∧
      (suite.extend projects (suite.overlap projects true) recommend count).recommended
        = (suite'.extend projects (suite'.overlap projects true) recommend count).recommended := by
  have hrecommend := h.recommend_eq projects count
  refine ⟨?_, hrecommend⟩
  have hadd : ∀ (picks : List Recommended) (current current' : Suite),
      current.SameSystem current' → current.registry = suite.registry →
      current'.registry = suite'.registry →
      (picks.foldl suite.addRecommended current).SameSystem
        (picks.foldl suite'.addRecommended current') := by
    intro picks
    induction picks with
    | nil => exact fun _ _ hcurrent _ _ => hcurrent
    | cons r rest ih =>
      intro current current' hcurrent hregistry hregistry'
      refine ih _ _ ?_ hregistry hregistry'
      have hkey : suite.recommendedKey r.function = suite'.recommendedKey r.function := by
        rw [recommendedKey, recommendedKey, h.config]
      rw [addRecommended, addRecommended, hkey, ← h.graph]
      refine hcurrent.insert _ ?_ ?_
      · rw [hregistry]
        exact namedBy_reachableSubgraph h.built.system _
      · rw [hregistry']
        exact namedBy_reachableSubgraph (h.graph ▸ h.built'.system) _
  simp only [Suite.extend]
  rw [← hrecommend]
  exact hadd _ suite suite' h rfl rfl

end SameSystem

end Suite

end BenchCover
