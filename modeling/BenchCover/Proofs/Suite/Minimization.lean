import BenchCover.Proofs.Suite.CoverBound
import BenchCover.Proofs.Suite.Overlap
import BenchCover.Proofs.Suite.Selection

/-!
# Minimized suites cover what they are made from

Two results about the selection of `BenchCover/Proofs/Suite/Selection.lean`.

**Nothing is lost.**  With the overlap and the exclusion of the minimization command, a micro
benchmark covers all of its nodes on the side that the strategy aims at (`mem_coverOf_project_iff`),
because the function that an id stands for is the one that was counted.  So the picks have all the
nodes of the suite on that side, and with it all the shared ones: `minimize_keeps_covered`.

**Not much is wasted.**  Every pick gains at least as much as any micro benchmark still offers, so
the bound of `BenchCover/Proofs/Suite/CoverBound.lean` holds: `length_select_le`.
-/

namespace BenchCover

namespace Suite

variable {suite : Suite} {projects : ProjectPrefixes} {strategy : Strategy} {key : String}
  {micro : CallGraph}

/-! ## The micro benchmarks that are kept -/

lemma foldlM_insert_micros (suite : Suite) {keys : List String}
    (hknown : ∀ key ∈ keys, key ∈ suite.micros.keys) (kept : SortedMap String CallGraph) :
    ∃ micros, keys.foldlM (fun micros key => match suite.micros.lookup key with
        | some micro => Except.ok (micros.insert key micro)
        | none => .error (MinimizationFault.missingMicro key)) kept = .ok micros ∧
      ∀ key, micros.lookup key
        = if key ∈ keys then suite.micros.lookup key else kept.lookup key := by
  induction keys generalizing kept with
  | nil => exact ⟨kept, rfl, by simp⟩
  | cons key rest ih =>
    obtain ⟨micro, hmicro⟩ := SortedMap.mem_keys_iff.1 (hknown key List.mem_cons_self)
    obtain ⟨micros, hok, hlookup⟩ :=
      ih (fun other hother => hknown other (List.mem_cons_of_mem _ hother)) (kept.insert key micro)
    refine ⟨micros, ?_, fun other => ?_⟩
    · rw [List.foldlM_cons, hmicro]
      exact hok
    · rw [hlookup, SortedMap.lookup_insert]
      by_cases hsame : key = other
      · subst hsame
        simp [hmicro]
      · simp [Ne.symm hsame, hsame]

/-- Micro benchmarks that are known are kept as they are, and no others. -/
lemma exists_microsOf (suite : Suite) (keys : List String)
    (hknown : ∀ key ∈ keys, key ∈ suite.micros.keys) :
    ∃ micros, suite.microsOf keys = .ok micros ∧
      ∀ key, micros.lookup key = if key ∈ keys then suite.micros.lookup key else none :=
  foldlM_insert_micros suite hknown .empty

/-- Whatever is selected has a row in the overlap. -/
lemma key_mem_of_mem_select {overlap : SuiteOverlap} {exclusion : Exclusion} {s : Selected}
    (hs : s ∈ suite.select overlap strategy exclusion) : s.key ∈ overlap.micros.keys := by
  obtain ⟨front, back, hsplit⟩ := List.append_of_mem hs
  exact (eachPick_iff.1 (suite.select_spec overlap strategy exclusion).1 front s back hsplit).known

/-! ## What a micro benchmark covers for the project -/

/-- Under the overlap of the project, ids stand for the functions that were counted. -/
lemma functionFor?_of_mem_nodes (hmicro : suite.micros.lookup key = some micro) {id : FunctionId}
    (hid : id ∈ (NodeCounts.ofGraph projects true micro).keys) :
    ∃ f, suite.functionFor? key id = some f ∧ projects.covers f.name = true := by
  obtain ⟨f, hf, rfl, hcovers⟩ := NodeCounts.mem_keys_ofGraph.1 hid
  have hfound : micro.function? f.id = some f := CallGraph.function?_eq_some_iff.2 ⟨hf, rfl⟩
  exact ⟨f, by simp [functionFor?, hmicro, hfound], hcovers rfl⟩

lemma mem_nodes_micro_of_mem_side {id : FunctionId}
    (hid : id ∈ ((NodeOverlap.between projects true suite.system key suite.systemGraph
      micro).nodes strategy.side).keys) :
    id ∈ (NodeCounts.ofGraph projects true micro).keys := by
  cases strategy with
  | greedyMicro => exact hid
  | greedySystem => exact (NodeOverlap.mem_nodes_between_shared.1 hid).2

/-- **For the project, a micro benchmark covers all of its nodes** on the side of the strategy. -/
lemma mem_coverOf_project_iff (hmicro : suite.micros.lookup key = some micro) {id : FunctionId} :
    id ∈ suite.coverOf (suite.overlap projects true) strategy
        (Exclusion.ofProjects projects).negate key ↔
      id ∈ ((NodeOverlap.between projects true suite.system key suite.systemGraph
        micro).nodes strategy.side).keys := by
  rw [mem_coverOf_iff (lookup_overlap_of_some hmicro)]
  refine ⟨fun h => h.1, fun hid => ⟨hid, ?_⟩⟩
  obtain ⟨f, hf, hcovers⟩ := functionFor?_of_mem_nodes hmicro (mem_nodes_micro_of_mem_side hid)
  exact ⟨f, hf, by simp [Exclusion.negate, Exclusion.ofProjects, hcovers]⟩

/-- **Every node of a micro benchmark is a node of one that is selected.** -/
lemma exists_selected_of_mem_nodes (hmicro : suite.micros.lookup key = some micro)
    {id : FunctionId}
    (hid : id ∈ ((NodeOverlap.between projects true suite.system key suite.systemGraph
      micro).nodes strategy.side).keys) :
    ∃ s ∈ suite.select (suite.overlap projects true) strategy
        (Exclusion.ofProjects projects).negate,
      ∃ chosen, suite.micros.lookup s.key = some chosen ∧
        id ∈ ((NodeOverlap.between projects true suite.system s.key suite.systemGraph
          chosen).nodes strategy.side).keys := by
  have hkey : key ∈ (suite.overlap projects true).micros.keys := by
    rw [keys_overlap]
    exact SortedMap.mem_keys_iff.2 ⟨micro, hmicro⟩
  have hcovered := (suite.select_spec (suite.overlap projects true) strategy
    (Exclusion.ofProjects projects).negate).2 key hkey ((mem_coverOf_project_iff hmicro).2 hid)
  obtain ⟨s, hs, hid'⟩ := mem_coverage.1 hcovered
  have hknown := key_mem_of_mem_select hs
  rw [keys_overlap] at hknown
  obtain ⟨chosen, hchosen⟩ := SortedMap.mem_keys_iff.1 hknown
  exact ⟨s, hs, chosen, hchosen, (mem_coverOf_project_iff hchosen).1 hid'⟩

/-- **The selected micro benchmarks have the nodes of the suite** on the side of the strategy. -/
lemma keySet_total_of_selected {kept : SortedMap String CallGraph}
    (hkept : ∀ key, kept.lookup key
      = if key ∈ (suite.select (suite.overlap projects true) strategy
          (Exclusion.ofProjects projects).negate).map (·.key)
        then suite.micros.lookup key else none) :
    (((suite.withMicros kept).overlap projects true).total.nodes strategy.side).keySet
      = ((suite.overlap projects true).total.nodes strategy.side).keySet := by
  ext id
  rw [SortedMap.mem_keySet, SortedMap.mem_keySet, mem_total_iff, mem_total_iff]
  constructor
  · rintro ⟨key, micro, hmicro, hid⟩
    rw [withMicros, hkept] at hmicro
    split_ifs at hmicro
    exact ⟨key, micro, hmicro, hid⟩
  · rintro ⟨key, micro, hmicro, hid⟩
    obtain ⟨s, hs, chosen, hchosen, hid⟩ := exists_selected_of_mem_nodes hmicro hid
    refine ⟨s.key, chosen, ?_, hid⟩
    rw [withMicros, hkept, if_pos (List.mem_map_of_mem hs), hchosen]

/-- Suites whose micro benchmarks have the same nodes share the same nodes with their system. -/
lemma keySet_shared_eq_of_micro {kept : SortedMap String CallGraph}
    (hmicro : ((suite.withMicros kept).overlap projects true).total.microNodes.keySet
      = (suite.overlap projects true).total.microNodes.keySet) :
    ((suite.withMicros kept).overlap projects true).total.sharedNodes.keySet
      = (suite.overlap projects true).total.sharedNodes.keySet := by
  ext id
  have hid := Finset.ext_iff.1 hmicro id
  simp only [SortedMap.mem_keySet] at hid ⊢
  rw [mem_sharedNodes_total_iff, mem_sharedNodes_total_iff]
  exact and_congr_right' hid

/-! ## Nothing is lost -/

/-- **Minimizing never loses a covered project function.**  It does not fail, it keeps some of the
micro benchmarks as they are, and those that it keeps share with the system all that the whole suite
shares with it.  The strategy that goes by the micro benchmarks themselves keeps all of their
project functions too. -/
theorem minimize_keeps_covered (suite : Suite) (projects : ProjectPrefixes)
    (strategy : Strategy) :
    ∃ minimized,
      suite.minimize (suite.overlap projects true) strategy (Exclusion.ofProjects projects).negate
        = .ok minimized ∧
      minimized.suite = suite.withMicros minimized.suite.micros ∧
      (∀ key micro, minimized.suite.micros.lookup key = some micro →
        suite.micros.lookup key = some micro) ∧
      (minimized.suite.overlap projects true).total.sharedNodes.keySet
        = (suite.overlap projects true).total.sharedNodes.keySet ∧
      (strategy = .greedyMicro →
        (minimized.suite.overlap projects true).total.microNodes.keySet
          = (suite.overlap projects true).total.microNodes.keySet) := by
  obtain ⟨kept, hok, hkept⟩ := suite.exists_microsOf
    ((suite.select (suite.overlap projects true) strategy
      (Exclusion.ofProjects projects).negate).map (·.key)) (by
    intro key hkey
    obtain ⟨s, hs, rfl⟩ := List.mem_map.1 hkey
    simpa [keys_overlap] using key_mem_of_mem_select hs)
  have hside := keySet_total_of_selected hkept
  refine ⟨⟨suite.withMicros kept, suite.select (suite.overlap projects true) strategy
    (Exclusion.ofProjects projects).negate⟩, ?_, rfl, ?_, ?_, ?_⟩
  · rw [minimize, hok]
    rfl
  · intro key micro hmicro
    have hlookup := hkept key
    split_ifs at hlookup
    · exact hlookup ▸ hmicro
    · exact absurd (hlookup.symm.trans hmicro) (by simp)
  · cases strategy with
    | greedyMicro => exact keySet_shared_eq_of_micro hside
    | greedySystem => exact hside
  · rintro rfl
    exact hside

/-! ## Not much is wasted -/

/-- **The selection is at most a harmonic number longer than any other.**  Let some micro benchmarks
cover together all that the micro benchmarks of the suite cover.  Then the selection is no longer
than their number times `1 + 1/2 + ⋯ + 1/d`, where `d` is the most that one micro benchmark
covers; and nothing is selected if there is nothing to cover. -/
theorem length_select_le (suite : Suite) (overlap : SuiteOverlap) (strategy : Strategy)
    (exclusion : Exclusion) (rivals : Finset String) (hrivals : rivals ⊆ overlap.micros.keySet)
    (hcover : ∀ key ∈ overlap.micros.keySet, suite.coverOf overlap strategy exclusion key ⊆
      rivals.biUnion (suite.coverOf overlap strategy exclusion)) :
    ((suite.select overlap strategy exclusion).length : ℚ)
        ≤ harmonic (overlap.micros.keySet.sup fun key =>
            (suite.coverOf overlap strategy exclusion key).card) * rivals.card ∧
      ((∀ key ∈ overlap.micros.keySet, suite.coverOf overlap strategy exclusion key = ∅) →
        suite.select overlap strategy exclusion = []) := by
  obtain ⟨hpicks, -⟩ := suite.select_spec overlap strategy exclusion
  constructor
  · have hgreedy := hpicks.imp fun earlier s hbest =>
      (show 0 < (gain (fun s : Selected => suite.coverOf overlap strategy exclusion s.key)
          earlier s).card ∧ ∀ key ∈ rivals,
          (suite.coverOf overlap strategy exclusion key \
            coverage (fun s : Selected => suite.coverOf overlap strategy exclusion s.key)
              earlier).card
          ≤ (gain (fun s : Selected => suite.coverOf overlap strategy exclusion s.key)
              earlier s).card from by
        have hgain := hbest.additional
        refine ⟨hgain ▸ hbest.positive, fun key hkey => hgain ▸ hbest.card_le ?_⟩
        exact SortedMap.mem_keySet.1 (hrivals hkey))
    have hlength := length_le_potential hgreedy fun s hs =>
      hcover s.key (SortedMap.mem_keySet.2 (key_mem_of_mem_select hs))
    refine hlength.trans (potential_le fun key hkey => ?_)
    exact Finset.le_sup (f := fun key => (suite.coverOf overlap strategy exclusion key).card)
      (hrivals hkey)
  · intro hempty
    cases hselect : suite.select overlap strategy exclusion with
    | nil => rfl
    | cons s rest =>
      rw [hselect] at hpicks
      have hbest := hpicks.1
      have hnone := hempty s.key (SortedMap.mem_keySet.2 hbest.known)
      have hzero := hbest.additional
      rw [hnone, Finset.empty_sdiff, Finset.card_empty] at hzero
      exact absurd hbest.positive (by omega)

/-- A micro benchmark that exercises the given functions of a project. -/
def exercising (ids : List FunctionId) : CallGraph :=
  (ids.map fun id => (⟨id, s!"p/{id}", .zero, .zero⟩ : Function)).foldl CallGraph.addFunction .empty

/-- A suite whose largest micro benchmark is of no use to the best selection. -/
def crossing : Suite where
  config := ⟨.dot, 100, .zero false, .zero false⟩
  system := "system"
  systemGraph := exercising [0, 1, 2, 3, 4, 5]
  micros := .ofList [("across", exercising [1, 2, 3, 4]), ("left", exercising [0, 1, 2]),
    ("right", exercising [3, 4, 5])]
  registry := .empty

theorem length_select_le_crossing :
    ((crossing.select (crossing.overlap ⟨["p/"]⟩ true) .greedyMicro .nothing).length : ℚ)
      ≤ harmonic 4 * 2 := by
  have hmost : ((crossing.overlap ⟨["p/"]⟩ true).micros.keySet.sup fun key =>
      (crossing.coverOf (crossing.overlap ⟨["p/"]⟩ true) .greedyMicro .nothing key).card) = 4 := by
    decide +kernel
  have hbound := (length_select_le crossing (crossing.overlap ⟨["p/"]⟩ true) .greedyMicro .nothing
    {"left", "right"} (by decide +kernel) (by decide +kernel)).1
  rwa [hmost] at hbound

end Suite

end BenchCover
