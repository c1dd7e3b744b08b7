import BenchCover.Proofs.Suite.Load
import BenchCover.Proofs.Suite.Reselection
import BenchCover.Report.Minimization

/-!
# The two passes of a minimization

A minimization runs twice, with the overlap of the project and with that of all functions, and
leaves the same functions out of the candidates both times.  In a suite that was read with one
registry the micro benchmarks cover the same in both passes (`coverOf_pass`), so the passes select
the same: `minimize_passes`.

The strategies cover different functions, but a function that only the micro benchmark has takes no
time of the system.  So a micro benchmark has the same time under both: `timeOf_strategy`.
-/

namespace BenchCover

namespace Suite

variable {suite : Suite} {registry : Registry} {key : String} {micro : CallGraph}

/-- **What is covered is the same in both passes.** -/
lemma BuiltWith.coverOf_pass (h : suite.BuiltWith registry) (projects : ProjectPrefixes)
    (strategy : Strategy) (hmicro : suite.micros.lookup key = some micro) :
    suite.coverOf (suite.overlap projects true) strategy (Exclusion.ofProjects projects).negate key
      = suite.coverOf (suite.overlap projects false) strategy (Exclusion.ofProjects projects).negate
          key :=
  (h.spells_coverOf projects true strategy hmicro).unique
    (h.spells_coverOf projects false strategy hmicro)

/-- **A micro benchmark takes the same time under both strategies.** -/
lemma BuiltWith.timeOf_strategy (h : suite.BuiltWith registry) (projects : ProjectPrefixes)
    (projectOnly : Bool) (hmicro : suite.micros.lookup key = some micro) :
    suite.timeOf (suite.overlap projects projectOnly) .greedyMicro
        (Exclusion.ofProjects projects).negate key
      = suite.timeOf (suite.overlap projects projectOnly) .greedySystem
          (Exclusion.ofProjects projects).negate key := by
  have hmicroNames := h.spells_coverOf projects projectOnly .greedyMicro hmicro
  have hsystemNames := h.spells_coverOf projects projectOnly .greedySystem hmicro
  refine congrArg Duration.mk (Finset.sum_subset ?_ ?_).symm
  · intro id hid
    obtain ⟨name, hname, -, hmem, hcovers⟩ := (hsystemNames.mem_iff id).1 hid
    exact hmicroNames.mem_of_name hname
      ⟨fun hside => absurd rfl hside, fun _ => hmem (by decide), hcovers⟩
  · intro id hid hnot
    obtain ⟨name, hname, -, hmem, hcovers⟩ := (hmicroNames.mem_iff id).1 hid
    have habsent : name ∉ suite.systemGraph.names := fun hsystem =>
      hnot (hsystemNames.mem_of_name hname
        ⟨fun _ => hsystem, fun _ => hmem (by decide), hcovers⟩)
    rw [h.systemTimeOf_of_notMem hname habsent]
    rfl

/-- **Both passes select the same list.** -/
theorem BuiltWith.select_pass (h : suite.BuiltWith registry) (projects : ProjectPrefixes)
    (strategy : Strategy) :
    suite.select (suite.overlap projects true) strategy (Exclusion.ofProjects projects).negate
      = suite.select (suite.overlap projects false) strategy
          (Exclusion.ofProjects projects).negate := by
  have hall := suite.isSelection_select (suite.overlap projects false) strategy
    (Exclusion.ofProjects projects).negate
  have hproject := suite.isSelection_select (suite.overlap projects true) strategy
    (Exclusion.ofProjects projects).negate
  rw [keys_overlap] at hall hproject
  have hcover : ∀ key ∈ suite.micros.keys,
      suite.coverOf (suite.overlap projects false) strategy (Exclusion.ofProjects projects).negate
          key
        = suite.coverOf (suite.overlap projects true) strategy
            (Exclusion.ofProjects projects).negate key := by
    intro key hkey
    obtain ⟨micro, hmicro⟩ := SortedMap.mem_keys_iff.1 hkey
    exact (h.coverOf_pass projects strategy hmicro).symm
  exact hproject.unique_of_renamed hall (Renamed.of_eq hcover) fun key hkey => by
    rw [timeOf, timeOf, hcover key hkey]

lemma minimize_eq_of_select {overlap overlap' : SuiteOverlap} {strategy : Strategy}
    {exclusion : Exclusion}
    (hselect : suite.select overlap strategy exclusion = suite.select overlap' strategy exclusion) :
    suite.minimize overlap strategy exclusion = suite.minimize overlap' strategy exclusion := by
  rw [minimize, minimize, hselect]

/-- The time of a micro benchmark that is selected. -/
lemma BuiltWith.systemTime_eq (h : suite.BuiltWith registry) {projects : ProjectPrefixes}
    {projectOnly : Bool} {s s' : Selected}
    (hs : s ∈ suite.select (suite.overlap projects projectOnly) .greedyMicro
      (Exclusion.ofProjects projects).negate)
    (hs' : s' ∈ suite.select (suite.overlap projects projectOnly) .greedySystem
      (Exclusion.ofProjects projects).negate) (hkey : s.key = s'.key) :
    s.systemTime = s'.systemTime := by
  have hmem := key_mem_of_mem_select hs
  rw [keys_overlap] at hmem
  obtain ⟨micro, hmicro⟩ := SortedMap.mem_keys_iff.1 hmem
  rw [(suite.isSelection_select _ _ _).times s hs, (suite.isSelection_select _ _ _).times s' hs',
    ← hkey]
  exact h.timeOf_strategy projects projectOnly hmicro

/-- **The two passes of a minimization agree.**  Let a suite be loaded, or let its graphs be read
with one registry in some other way.

* With either strategy, minimizing by the overlap of the project and by that of all functions comes
  to the same: the same micro benchmarks are selected, in the same order and with the same numbers.
  The rows of the second pass are those of the first one, but for the column that tells the pass.
* A micro benchmark that both strategies select has the same time in both. -/
theorem minimize_passes (suite : Suite) (projects : ProjectPrefixes)
    (hsuite : (∃ tree systemFile microDirectory config,
      (load tree systemFile microDirectory config).result = .ok suite) ∨
        ∃ registry, suite.BuiltWith registry) :
    (∀ strategy, ∃ minimized,
      suite.minimize (suite.overlap projects true) strategy (Exclusion.ofProjects projects).negate
        = .ok minimized ∧
      suite.minimize (suite.overlap projects false) strategy (Exclusion.ofProjects projects).negate
        = .ok minimized ∧
      MinimizationReport.suiteRows projects false minimized
        = (MinimizationReport.suiteRows projects true minimized).map fun row =>
            row.set (MinimizationReport.columns.idxOf "project_only") (boolField false)) ∧
    ∀ projectOnly,
      ∀ s ∈ suite.select (suite.overlap projects projectOnly) .greedyMicro
        (Exclusion.ofProjects projects).negate,
      ∀ s' ∈ suite.select (suite.overlap projects projectOnly) .greedySystem
        (Exclusion.ofProjects projects).negate,
      s.key = s'.key → s.systemTime = s'.systemTime := by
  have hbuilt : ∃ registry, suite.BuiltWith registry := by
    rcases hsuite with ⟨tree, systemFile, microDirectory, config, hloaded⟩ | hbuilt
    · exact ⟨suite.registry, builtWith_of_load hloaded⟩
    · exact hbuilt
  obtain ⟨registry, h⟩ := hbuilt
  refine ⟨fun strategy => ?_, fun projectOnly s hs s' hs' hkey => h.systemTime_eq hs hs' hkey⟩
  obtain ⟨kept, hok, -⟩ := exists_minimize suite (suite.overlap projects true) strategy
    (Exclusion.ofProjects projects).negate (by rw [keys_overlap]; exact List.Subset.refl _)
  refine ⟨_, hok, ?_, ?_⟩
  · rw [← minimize_eq_of_select (h.select_pass projects strategy), hok]
  · have hcolumn : MinimizationReport.columns.idxOf "project_only" = 4 := by decide
    rw [hcolumn, MinimizationReport.suiteRows, MinimizationReport.suiteRows, List.map_map]
    rfl

/-- A graph of functions that were registered, with a self time for each of them. -/
def registered (registry : Registry) (functions : List (String × Nat)) : CallGraph :=
  (functions.map fun (name, time) =>
    (Function.register registry name ⟨time⟩ ⟨time⟩).2).foldl CallGraph.addFunction .empty

/-- The names of a small project and of a library that it uses. -/
def projectNames : Registry :=
  (Registry.empty.registerAll ["p/load", "p/scan", "p/trace", "lib/copy"]).1

/-- A suite with a micro benchmark that has a function which the system does not have. -/
def tracing : Suite where
  config := ⟨.dot, 100, .zero false, .zero false⟩
  system := "system"
  systemGraph := registered projectNames [("p/load", 5), ("p/scan", 7), ("lib/copy", 2)]
  micros := .ofList [("loads", registered projectNames [("p/load", 1), ("lib/copy", 1)]),
    ("traces", registered projectNames [("p/scan", 1), ("p/trace", 9)])]
  registry := projectNames

lemma builtWith_tracing : tracing.BuiltWith projectNames where
  system := by unfold CallGraph.NamedBy; decide +kernel
  micros := by
    have hentries : ∀ entry ∈ tracing.micros.entries, entry.2.NamedBy projectNames := by
      unfold CallGraph.NamedBy
      decide +kernel
    exact fun key micro hmicro => hentries (key, micro) (SortedMap.lookup_eq_some_iff.1 hmicro)

theorem minimize_passes_tracing :
    tracing.BuiltWith projectNames ∧ ∃ minimized,
      tracing.minimize (tracing.overlap ⟨["p/"]⟩ true) .greedySystem
        (Exclusion.ofProjects ⟨["p/"]⟩).negate = .ok minimized ∧
      tracing.minimize (tracing.overlap ⟨["p/"]⟩ false) .greedySystem
        (Exclusion.ofProjects ⟨["p/"]⟩).negate = .ok minimized := by
  obtain ⟨minimized, hfirst, hsecond, -⟩ :=
    (minimize_passes tracing ⟨["p/"]⟩ (Or.inr ⟨projectNames, builtWith_tracing⟩)).1 .greedySystem
  exact ⟨builtWith_tracing, minimized, hfirst, hsecond⟩

end Suite

end BenchCover
