import BenchCover.Proofs.Suite.Alike
import BenchCover.Report.Minimization
import BenchCover.Report.Overlap
import BenchCover.Report.Recommendation

/-!
# Reports on alike suites

Reports tell counts, selections and recommendations.  On alike suites they are the same text for
text: `overlapReport_eq` for the suites themselves, `minimizationReport_eq` and
`recommendationReport_eq` for what they are minimized and extended to.
-/

namespace BenchCover

variable {suites suites' : List Suite} {suite suite' : Suite}

/-! ## Overlaps -/

namespace OverlapReport

lemma row_eq {a b : NodeOverlap} (h : a.SameCounts b) (projects : ProjectPrefixes)
    (projectOnly : Bool) (micro : String) (config : RenderConfig) :
    row projects projectOnly micro config a = row projects projectOnly micro config b := by
  simp only [row, h.systemName, h.share, show a.systemNodes.size = b.systemNodes.size from
    h.size .system, show a.microNodes.size = b.microNodes.size from h.size .micro,
    show a.sharedNodes.size = b.sharedNodes.size from h.size .shared]

lemma microRow_eq {a b : NodeOverlap} (h : a.SameCounts b) (projects : ProjectPrefixes)
    (projectOnly : Bool) (key : String) :
    microRow projects projectOnly key a = microRow projects projectOnly key b := by
  rw [microRow, microRow]
  cases FileName.parse key with
  | error cause => rfl
  | ok name => simp only [row_eq h]

lemma suiteRows_eq (h : suite.Alike suite') (projects : ProjectPrefixes) (projectOnly : Bool) :
    suiteRows projects projectOnly suite = suiteRows projects projectOnly suite' := by
  have htotal := h.sameCounts_total projects projectOnly
  simp only [suiteRows]
  rw [row_eq htotal, htotal.microName, h.config]
  refine congrArg (fun micros => Report.concat (micros ++ _)) ?_
  refine SortedMap.map_entries_congr ?_ fun key a b ha hb => ?_
  · rw [Suite.keys_overlap, Suite.keys_overlap, h.keys_eq]
  · rw [Suite.lookup_overlap] at ha hb
    obtain ⟨micro, hmicro, rfl⟩ := Option.map_eq_some_iff.1 ha
    obtain ⟨micro', hmicro', rfl⟩ := Option.map_eq_some_iff.1 hb
    exact microRow_eq (h.sameCounts_row projects projectOnly hmicro hmicro') projects projectOnly
      key

end OverlapReport

/-- **Overlaps of alike suites are reported alike.** -/
theorem overlapReport_eq (h : List.Forall₂ Suite.Alike suites suites')
    (projects : ProjectPrefixes) (projectOnly header : Bool) :
    overlapReport projects suites projectOnly header
      = overlapReport projects suites' projectOnly header := by
  have hrows : suites.map (OverlapReport.suiteRows projects projectOnly)
      = suites'.map (OverlapReport.suiteRows projects projectOnly) := by
    induction h with
    | nil => rfl
    | cons halike _ ih =>
      rw [List.map_cons, List.map_cons, OverlapReport.suiteRows_eq halike, ih]
  rw [overlapReport, overlapReport, hrows]

/-! ## Minimized suites -/

/-- Minimized suites that are alike, with the same selection. -/
structure Minimized.Alike (minimized minimized' : Minimized) : Prop where
  suite : minimized.suite.Alike minimized'.suite
  selected : minimized.selected = minimized'.selected

lemma minimizeAll_eq (suites : List Suite) (overlap : Suite → SuiteOverlap) (strategy : Strategy)
    (exclusion : Exclusion) :
    Suite.minimizeAll suites (suites.map overlap) strategy exclusion
      = suites.mapM fun suite => suite.minimize (overlap suite) strategy exclusion := by
  rw [Suite.minimizeAll, if_pos (List.length_map _).symm]
  induction suites with
  | nil => rfl
  | cons suite rest ih => simp only [List.map_cons, List.zip_cons_cons, List.mapM_cons, ih]

/-- **Alike suites are minimized to alike suites.** -/
lemma exists_minimizeAll (h : List.Forall₂ Suite.Alike suites suites') (projects : ProjectPrefixes)
    (projectOnly : Bool) (strategy : Strategy) :
    ∃ minimized minimized',
      Suite.minimizeAll suites (suites.map (·.overlap projects projectOnly)) strategy
        (Exclusion.ofProjects projects).negate = .ok minimized ∧
      Suite.minimizeAll suites' (suites'.map (·.overlap projects projectOnly)) strategy
        (Exclusion.ofProjects projects).negate = .ok minimized' ∧
      List.Forall₂ Minimized.Alike minimized minimized' := by
  simp only [minimizeAll_eq]
  induction h with
  | nil => exact ⟨[], [], rfl, rfl, .nil⟩
  | cons halike _ ih =>
    obtain ⟨first, first', hfirst, hfirst', hsuite, hselected⟩ :=
      halike.minimize projects projectOnly strategy
    obtain ⟨rest, rest', hrest, hrest', hrests⟩ := ih
    refine ⟨first :: rest, first' :: rest', ?_, ?_, .cons ⟨hsuite, hselected⟩ hrests⟩
    · rw [List.mapM_cons, hfirst, hrest]
      rfl
    · rw [List.mapM_cons, hfirst', hrest']
      rfl

lemma alike_of_minimized {minimized minimized' : List Minimized}
    (h : List.Forall₂ Minimized.Alike minimized minimized') :
    List.Forall₂ Suite.Alike (minimized.map (·.suite)) (minimized'.map (·.suite)) :=
  List.forall₂_map_left_iff.2 (List.forall₂_map_right_iff.2 (h.imp fun _ _ halike => halike.suite))

/-- **Selections from alike suites are reported alike.** -/
theorem minimizationReport_eq {minimized minimized' : List Minimized}
    (h : List.Forall₂ Minimized.Alike minimized minimized') (projects : ProjectPrefixes)
    (projectOnly header : Bool) :
    minimizationReport projects minimized projectOnly header
      = minimizationReport projects minimized' projectOnly header := by
  have hrows : minimized.flatMap (MinimizationReport.suiteRows projects projectOnly)
      = minimized'.flatMap (MinimizationReport.suiteRows projects projectOnly) := by
    induction h with
    | nil => rfl
    | @cons first first' _ _ halike _ ih =>
      have hfirst : MinimizationReport.suiteRows projects projectOnly first
          = MinimizationReport.suiteRows projects projectOnly first' := by
        simp only [MinimizationReport.suiteRows, MinimizationReport.row, halike.selected,
          halike.suite.config, halike.suite.system]
      rw [List.flatMap_cons, List.flatMap_cons, hfirst, ih]
  rw [minimizationReport, minimizationReport, hrows]

/-! ## Extended suites -/

/-- Extended suites that are alike, with the same recommendations. -/
structure Extended.Alike (extended extended' : Extended) : Prop where
  suite : extended.suite.Alike extended'.suite
  recommended : extended.recommended = extended'.recommended
  requested : extended.requested = extended'.requested

lemma extendAll_eq (suites : List Suite) (projects : ProjectPrefixes)
    (overlap : Suite → SuiteOverlap) (recommender : Recommender) (count : Nat) :
    Suite.extendAll suites projects (suites.map overlap) recommender count
      = .ok (suites.map fun suite => suite.extend projects (overlap suite) recommender count) := by
  rw [Suite.extendAll, if_pos (List.length_map _).symm]
  induction suites with
  | nil => rfl
  | cons suite rest ih =>
    simp only [List.map_cons, List.zip_cons_cons, Except.ok.inj ih]

/-- **Alike suites are extended to alike suites**, if they have the same system graphs. -/
lemma exists_extendAll (h : List.Forall₂ Suite.SameSystem suites suites')
    (projects : ProjectPrefixes) (count : Nat) :
    ∃ extended extended',
      Suite.extendAll suites projects (suites.map (·.overlap projects true)) Suite.recommend count
        = .ok extended ∧
      Suite.extendAll suites' projects (suites'.map (·.overlap projects true)) Suite.recommend count
        = .ok extended' ∧
      List.Forall₂ Extended.Alike extended extended' := by
  refine ⟨_, _, extendAll_eq .., extendAll_eq .., ?_⟩
  refine List.forall₂_map_left_iff.2 (List.forall₂_map_right_iff.2 (h.imp fun suite suite' hsame => ?_))
  obtain ⟨hsuite, hrecommended⟩ := hsame.extend projects count
  exact ⟨hsuite.toAlike, hrecommended, rfl⟩

lemma alike_of_extended {extended extended' : List Extended}
    (h : List.Forall₂ Extended.Alike extended extended') :
    List.Forall₂ Suite.Alike (extended.map (·.suite)) (extended'.map (·.suite)) :=
  List.forall₂_map_left_iff.2 (List.forall₂_map_right_iff.2 (h.imp fun _ _ halike => halike.suite))

/-- **Recommendations for alike suites are reported alike.** -/
theorem recommendationReport_eq {extended extended' : List Extended}
    (h : List.Forall₂ Extended.Alike extended extended') (projects : ProjectPrefixes) :
    recommendationReport projects extended = recommendationReport projects extended' := by
  have hrows : extended.flatMap (RecommendationReport.suiteRows projects)
      = extended'.flatMap (RecommendationReport.suiteRows projects) := by
    induction h with
    | nil => rfl
    | @cons first first' _ _ halike _ ih =>
      have hfirst : RecommendationReport.suiteRows projects first
          = RecommendationReport.suiteRows projects first' := by
        have hrow : RecommendationReport.row projects first
            = RecommendationReport.row projects first' := by
          funext recommended
          simp only [RecommendationReport.row, halike.recommended, halike.requested,
            halike.suite.config, halike.suite.system]
        rw [RecommendationReport.suiteRows, RecommendationReport.suiteRows, halike.recommended, hrow]
      rw [List.flatMap_cons, List.flatMap_cons, hfirst, ih]
  rw [recommendationReport, recommendationReport, hrows]

end BenchCover
