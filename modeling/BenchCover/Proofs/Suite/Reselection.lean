import BenchCover.Proofs.Suite.Determinacy
import BenchCover.Proofs.Suite.Minimization

/-!
# Minimizing twice

The overlap of a minimized suite is computed anew, from fewer micro benchmarks.  Those that were
kept have the same rows in it, hence cover the same (`coverOf_kept`) and take the same time
(`timeOf_kept`).  The first selection picks kept micro benchmarks only, so it is a selection among
them as well, and there is no other one: `minimize_minimize`.
-/

namespace BenchCover

namespace Suite

variable {suite : Suite} {projects : ProjectPrefixes} {projectOnly : Bool} {strategy : Strategy}
  {exclusion : Exclusion} {kept : SortedMap String CallGraph} {key : String} {micro : CallGraph}

/-- **What minimizing gives**: it does not fail if the overlap has no rows but those of the suite,
and keeps the micro benchmarks that are selected. -/
lemma exists_minimize (suite : Suite) (overlap : SuiteOverlap) (strategy : Strategy)
    (exclusion : Exclusion) (hrows : overlap.micros.keys ⊆ suite.micros.keys) :
    ∃ kept, suite.minimize overlap strategy exclusion
        = .ok ⟨suite.withMicros kept, suite.select overlap strategy exclusion⟩ ∧
      ∀ key, kept.lookup key
        = if key ∈ (suite.select overlap strategy exclusion).map (·.key)
          then suite.micros.lookup key else none := by
  obtain ⟨kept, hok, hkept⟩ := suite.exists_microsOf
    ((suite.select overlap strategy exclusion).map (·.key)) (by
      intro key hkey
      obtain ⟨s, hs, rfl⟩ := List.mem_map.1 hkey
      exact hrows (key_mem_of_mem_select hs))
  refine ⟨kept, ?_, hkept⟩
  rw [minimize, hok]
  rfl

/-! ## Micro benchmarks that are kept -/

lemma functionFor?_kept (hlookup : kept.lookup key = suite.micros.lookup key) (id : FunctionId) :
    (suite.withMicros kept).functionFor? key id = suite.functionFor? key id := by
  simp only [functionFor?, withMicros, hlookup]

lemma coverOf_kept (hlookup : kept.lookup key = suite.micros.lookup key) :
    (suite.withMicros kept).coverOf ((suite.withMicros kept).overlap projects projectOnly) strategy
        exclusion key
      = suite.coverOf (suite.overlap projects projectOnly) strategy exclusion key := by
  simp only [coverOf, lookup_overlap, functionFor?_kept hlookup]
  simp only [withMicros, hlookup]

lemma timeOf_kept (hlookup : kept.lookup key = suite.micros.lookup key) :
    (suite.withMicros kept).timeOf ((suite.withMicros kept).overlap projects projectOnly) strategy
        exclusion key
      = suite.timeOf (suite.overlap projects projectOnly) strategy exclusion key := by
  rw [timeOf, timeOf, coverOf_kept hlookup]
  rfl

/-! ## The second selection -/

/-- **From the micro benchmarks that are kept the same ones are selected.** -/
theorem select_kept
    (hkept : ∀ key, kept.lookup key
      = if key ∈ (suite.select (suite.overlap projects projectOnly) strategy exclusion).map (·.key)
        then suite.micros.lookup key else none) :
    (suite.withMicros kept).select ((suite.withMicros kept).overlap projects projectOnly) strategy
        exclusion
      = suite.select (suite.overlap projects projectOnly) strategy exclusion := by
  have hfirst := suite.isSelection_select (suite.overlap projects projectOnly) strategy exclusion
  have hknown : ∀ key ∈ kept.keys, kept.lookup key = suite.micros.lookup key := by
    intro key hkey
    obtain ⟨micro, hmicro⟩ := SortedMap.mem_keys_iff.1 hkey
    have hlookup := hkept key
    split_ifs at hlookup
    · exact hlookup
    · rw [hmicro] at hlookup
      cases hlookup
  have hpicked : ∀ s ∈ suite.select (suite.overlap projects projectOnly) strategy exclusion,
      s.key ∈ kept.keys := by
    intro s hs
    have hmem := hfirst.key_mem hs
    rw [keys_overlap] at hmem
    obtain ⟨micro, hmicro⟩ := SortedMap.mem_keys_iff.1 hmem
    exact SortedMap.mem_keys_iff.2
      ⟨micro, by rw [hkept, if_pos (List.mem_map_of_mem hs), hmicro]⟩
  have hsubset : kept.keys ⊆ (suite.overlap projects projectOnly).micros.keys := by
    intro key hkey
    obtain ⟨micro, hmicro⟩ := SortedMap.mem_keys_iff.1 hkey
    rw [hknown key hkey] at hmicro
    rw [keys_overlap]
    exact SortedMap.mem_keys_iff.2 ⟨micro, hmicro⟩
  have hsecond := (suite.withMicros kept).isSelection_select
    ((suite.withMicros kept).overlap projects projectOnly) strategy exclusion
  rw [keys_overlap] at hsecond
  exact ((hfirst.restrict hsubset hpicked).unique_of_renamed hsecond
    (Renamed.of_eq fun key hkey => coverOf_kept (hknown key hkey))
    fun key hkey => timeOf_kept (hknown key hkey)).symm

/-- **Minimizing a minimized suite changes nothing**: the same micro benchmarks are selected, in the
same order and with the same numbers, and all of them are kept. -/
theorem minimize_minimize (suite : Suite) (projects : ProjectPrefixes) (projectOnly : Bool)
    (strategy : Strategy) (exclusion : Exclusion) :
    ∃ minimized,
      suite.minimize (suite.overlap projects projectOnly) strategy exclusion = .ok minimized ∧
      minimized.suite.minimize (minimized.suite.overlap projects projectOnly) strategy exclusion
        = .ok minimized := by
  obtain ⟨kept, hok, hkept⟩ := exists_minimize suite (suite.overlap projects projectOnly) strategy
    exclusion (by rw [keys_overlap]; exact List.Subset.refl _)
  obtain ⟨kept', hok', hkept'⟩ := exists_minimize (suite.withMicros kept)
    ((suite.withMicros kept).overlap projects projectOnly) strategy exclusion
    (by rw [keys_overlap]; exact List.Subset.refl _)
  have hselect := select_kept hkept
  have hsame : kept' = kept := by
    refine SortedMap.eq_of_lookup fun key => ?_
    rw [hkept', hselect]
    split_ifs with hpicked
    · rfl
    · rw [hkept, if_neg hpicked]
  refine ⟨_, hok, ?_⟩
  rw [hok', hselect, hsame]
  rfl

end Suite

end BenchCover
