import BenchCover.Proofs.Suite.Extension

/-!
# Recommendations that complete a suite

How the recommendations for different counts go together, and what it means that there are fewer than
were asked for.

**Counts.**  The loop that recommends functions looks at the count only to stop, so that few
recommendations are the first of many (`Prospect.recommend_take`).  A later recommendation could have
been made before, and therefore adds no more than an earlier one (`Suite.pairwise_additional_recommend`).

**Completion.**  When recommendations stop short of the count, they newly reach all project functions
that no micro benchmark exercises (`Suite.taken_eq_uncovered`).  The suite that is extended by them
exercises the whole project, and to such a suite nothing is recommended (`Suite.recommend_eq_nil`).
-/

namespace BenchCover

/-! ## Counts -/

/-- **Few recommendations are the first of many.** -/
theorem Prospect.recommend_take {n m : Nat} (h : n ≤ m) (prospects : List Prospect) :
    recommend n prospects = (recommend m prospects).take n := by
  induction n generalizing m prospects with
  | zero => rw [recommend, List.take_zero]
  | succ n ih =>
    cases m with
    | zero => exact absurd h (Nat.not_succ_le_zero n)
    | succ m =>
      rw [recommend, recommend]
      cases ranked before prospects with
      | nil => rfl
      | cons best others =>
        simp only
        split_ifs with hempty
        · rfl
        · rw [List.take_succ_cons, ih (Nat.le_of_succ_le_succ h)]

namespace Suite

variable {suite : Suite} {projects : ProjectPrefixes} {overlap : SuiteOverlap} {count : Nat}
  {f : Function} {id : FunctionId} {earlier picks : List Recommended}

/-- What is left to reach anew gets less with every recommendation. -/
lemma card_sdiff_taken_append_le (back : List Recommended) :
    (suite.newlyReached projects overlap true f \
        suite.taken projects overlap (earlier ++ back) true).card
      ≤ (suite.newlyReached projects overlap true f \
        suite.taken projects overlap earlier true).card := by
  refine Finset.card_le_card (Finset.sdiff_subset_sdiff subset_rfl ?_)
  rw [taken, taken, coverage_append]
  exact Finset.subset_union_left

/-- **No recommendation adds more than an earlier one.** -/
lemma pairwise_additional_recommend (suite : Suite) (projects : ProjectPrefixes)
    (overlap : SuiteOverlap) (count : Nat) :
    (recommend projects suite overlap count).Pairwise fun r s => s.additional ≤ r.additional :=
  (suite.recommend_spec projects overlap count).2.1.pairwise_of_split
    fun front r between s hbest hlater =>
      calc s.additional
          = (suite.newlyReached projects overlap true s.function \
              suite.taken projects overlap (front ++ r :: between) true).card := hlater.additional
        _ ≤ (suite.newlyReached projects overlap true s.function \
              suite.taken projects overlap front true).card := card_sdiff_taken_append_le _
        _ ≤ r.additional := hbest.card_le hlater.known

/-! ## Completion -/

/-- The project functions of the system benchmark. -/
def projectFunctions (suite : Suite) (projects : ProjectPrefixes) : Finset FunctionId :=
  ((suite.systemGraph.functions.filter fun f => projects.covers f.name).map (·.id)).toFinset

/-- Those of them that no micro benchmark exercises. -/
def uncovered (suite : Suite) (projects : ProjectPrefixes) (overlap : SuiteOverlap) :
    Finset FunctionId :=
  suite.projectFunctions projects \ overlap.total.sharedNodes.keySet

lemma mem_projectFunctions_iff : id ∈ suite.projectFunctions projects ↔
    ∃ f ∈ suite.systemGraph.functions, f.id = id ∧ projects.covers f.name = true := by
  simp only [projectFunctions, List.mem_toFinset, List.mem_map, List.mem_filter]
  constructor
  · rintro ⟨f, ⟨hf, hcovers⟩, rfl⟩
    exact ⟨f, hf, rfl, hcovers⟩
  · rintro ⟨f, hf, rfl, hcovers⟩
    exact ⟨f, ⟨hf, hcovers⟩, rfl⟩

/-- The project functions that nothing exercises are those that may be recommended. -/
lemma mem_uncovered_iff : id ∈ suite.uncovered projects overlap ↔
    ∃ f, suite.MayRecommend projects overlap f ∧ f.id = id := by
  rw [uncovered, Finset.mem_sdiff, mem_projectFunctions_iff]
  constructor
  · rintro ⟨⟨f, hf, rfl, hcovers⟩, huncovered⟩
    exact ⟨f, ⟨hf, hcovers, huncovered⟩, rfl⟩
  · rintro ⟨f, hf, rfl⟩
    exact ⟨⟨f, hf.mem, rfl, hf.covers⟩, hf.uncovered⟩

lemma taken_subset_uncovered :
    suite.taken projects overlap picks true ⊆ suite.uncovered projects overlap := by
  intro id hid
  obtain ⟨r, -, hid⟩ := mem_coverage.1 hid
  obtain ⟨hreached, huncovered⟩ := Finset.mem_sdiff.1 hid
  obtain ⟨f, hf, hsame, hcovers, -⟩ := mem_reached_iff.1 hreached
  exact Finset.mem_sdiff.2 ⟨mem_projectFunctions_iff.2 ⟨f, hf, hsame, hcovers⟩, huncovered⟩

/-- **Recommendations that stop short of the count** newly reach all that is not exercised. -/
lemma taken_eq_uncovered (hshort : (recommend projects suite overlap count).length < count) :
    suite.taken projects overlap (recommend projects suite overlap count) true
      = suite.uncovered projects overlap := by
  refine taken_subset_uncovered.antisymm fun id hid => ?_
  obtain ⟨f, hf, rfl⟩ := mem_uncovered_iff.1 hid
  exact (suite.recommend_spec projects overlap count).2.2 hshort f hf hf.self_mem

/-- Nothing is recommended where everything is exercised. -/
lemma recommend_eq_nil (h : suite.uncovered projects overlap = ∅) (count : Nat) :
    recommend projects suite overlap count = [] := by
  have hpicks := (suite.recommend_spec projects overlap count).2.1
  cases hrecommend : recommend projects suite overlap count with
  | nil => rfl
  | cons r later =>
    have hfirst := eachPick_iff.1 hpicks [] r later hrecommend
    have hid := mem_uncovered_iff.2 ⟨r.function, hfirst.known, rfl⟩
    rw [h] at hid
    exact absurd hid (Finset.notMem_empty _)

/-- What micro benchmarks share of the project are functions of the project. -/
lemma keySet_total_subset (suite : Suite) (projects : ProjectPrefixes) :
    (suite.overlap projects true).total.sharedNodes.keySet ⊆ suite.projectFunctions projects := by
  intro id hid
  rw [SortedMap.mem_keySet, mem_sharedNodes_total_iff, NodeCounts.mem_keys_ofGraph] at hid
  obtain ⟨⟨f, hf, hsame, hcovers⟩, -⟩ := hid
  exact mem_projectFunctions_iff.2 ⟨f, hf, hsame, hcovers rfl⟩

/-- **A suite that is extended until nothing is left** exercises the whole project. -/
lemma keySet_total_extend_of_short
    (hshort : (recommend projects suite (suite.overlap projects true) count).length < count)
    (hfresh : ∀ r ∈ recommend projects suite (suite.overlap projects true) count,
      suite.recommendedKey r.function ∉ suite.micros.keys) :
    ((suite.extend projects (suite.overlap projects true) recommend count).suite.overlap projects
        true).total.sharedNodes.keySet = suite.projectFunctions projects := by
  rw [keySet_total_extend hfresh, taken_eq_uncovered hshort, uncovered]
  exact Finset.union_sdiff_of_subset (suite.keySet_total_subset projects)

/-- **Recommendations for different counts, and recommendations that complete a suite.**

* For a smaller count there are the first of the recommendations for a larger one, and no
  recommendation adds more than an earlier one.
* If there are fewer recommendations than were asked for, then each project function of the system
  that no micro benchmark exercises is reached from one of them, and what they add comes to as many
  functions.
* If moreover the suite was analysed for the project and none of the new keys is in use, then the
  extended suite shares with the system all project functions, and nothing is recommended to it. -/
theorem recommend_completes (suite : Suite) (projects : ProjectPrefixes) (overlap : SuiteOverlap) :
    (∀ n m, n ≤ m → recommend projects suite overlap n
      = (recommend projects suite overlap m).take n) ∧
    (∀ count, (recommend projects suite overlap count).Pairwise fun r s =>
      s.additional ≤ r.additional) ∧
    ∀ count, (recommend projects suite overlap count).length < count →
      (∀ f ∈ suite.systemGraph.functions, projects.covers f.name = true →
        f.id ∉ overlap.total.sharedNodes.keys →
        ∃ r ∈ recommend projects suite overlap count,
          suite.systemGraph.Reaches r.function.id f.id) ∧
      ((recommend projects suite overlap count).map (·.additional)).sum
        = (suite.uncovered projects overlap).card ∧
      (overlap = suite.overlap projects true →
        (∀ r ∈ recommend projects suite overlap count,
          suite.recommendedKey r.function ∉ suite.micros.keys) →
        let extended := (suite.extend projects overlap recommend count).suite
        (extended.overlap projects true).total.sharedNodes.keySet = suite.projectFunctions projects ∧
          ∀ again, recommend projects extended (extended.overlap projects true) again = []) := by
  refine ⟨fun n m h => Prospect.recommend_take h _,
    suite.pairwise_additional_recommend projects overlap, fun count hshort => ⟨?_, ?_, ?_⟩⟩
  · intro f hf hcovers huncovered
    have hmay : suite.MayRecommend projects overlap f :=
      ⟨hf, hcovers, mt SortedMap.mem_keySet.1 huncovered⟩
    have htaken := mem_uncovered_iff.2 ⟨f, hmay, rfl⟩
    rw [← taken_eq_uncovered hshort] at htaken
    obtain ⟨r, hr, hnew⟩ := mem_coverage.1 htaken
    exact ⟨r, hr, reaches_of_mem_newlyReached hnew⟩
  · rw [← card_taken (suite.recommend_spec projects overlap count).2.1, taken_eq_uncovered hshort]
  · rintro rfl hfresh extended
    have htotal : (extended.overlap projects true).total.sharedNodes.keySet
        = suite.projectFunctions projects := keySet_total_extend_of_short hshort hfresh
    refine ⟨htotal, recommend_eq_nil ?_⟩
    rw [uncovered, htotal, projectFunctions, systemGraph_extend, projectFunctions, sdiff_self]
    rfl

/-- In the tangled system there are two functions to recommend, however many are asked for. -/
lemma recommend_tangled_add_two (count : Nat) :
    recommend ⟨["p/"]⟩ tangled (tangled.overlap ⟨["p/"]⟩ true) (count + 2)
      = [⟨⟨0, "p/a", .zero, .zero⟩, 1⟩, ⟨⟨3, "p/c", .zero, .zero⟩, 1⟩] := by
  have hnone : Prospect.recommend count [] = [] := by cases count <;> simp [Prospect.recommend, ranked]
  rw [recommend, prospects_tangled, Prospect.recommend, ranked_of_pairwise (by decide +kernel)]
  show _ :: Prospect.recommend (count + 1) [⟨⟨3, "p/c", .zero, .zero⟩, some 0, .ofList [3], .empty⟩] = _
  rw [Prospect.recommend, ranked_of_pairwise (by decide +kernel)]
  show _ :: _ :: Prospect.recommend count [] = _
  rw [hnone]
  rfl

theorem recommend_completes_tangled :
    recommend ⟨["p/"]⟩ tangled (tangled.overlap ⟨["p/"]⟩ true) 1
        = (recommend ⟨["p/"]⟩ tangled (tangled.overlap ⟨["p/"]⟩ true) 3).take 1 ∧
      ∀ again, recommend ⟨["p/"]⟩
        (tangled.extend ⟨["p/"]⟩ (tangled.overlap ⟨["p/"]⟩ true) recommend 3).suite
        ((tangled.extend ⟨["p/"]⟩ (tangled.overlap ⟨["p/"]⟩ true) recommend 3).suite.overlap
          ⟨["p/"]⟩ true) again = [] := by
  have hfresh : ∀ r ∈ recommend ⟨["p/"]⟩ tangled (tangled.overlap ⟨["p/"]⟩ true) 3,
      tangled.recommendedKey r.function ∉ tangled.micros.keys := by
    rw [recommend_tangled_add_two 1]
    decide +kernel
  obtain ⟨htake, -, hshort⟩ :=
    recommend_completes tangled ⟨["p/"]⟩ (tangled.overlap ⟨["p/"]⟩ true)
  obtain ⟨-, -, hcomplete⟩ := hshort 3 (by rw [recommend_tangled_add_two 1]; decide)
  exact ⟨htake 1 3 (by decide), (hcomplete rfl hfresh).2⟩

end Suite

end BenchCover
