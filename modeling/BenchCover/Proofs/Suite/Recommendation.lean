import BenchCover.Proofs.Suite.Prospects

/-!
# Recommendations in closed form

The loop that recommends functions takes what a recommended function reaches away from the others,
and drops every function that was reached.  Here each recommendation is compared with what the
functions newly reach to begin with.

`Prospect.Recommending` is the invariant.  A prospect that remains has what its function newly
reaches less what the recommendations so far do, and is none of these itself.  A function without a
prospect was reached by a recommended one, and so was, by transitivity, all that it reaches, around
every cycle of the graph.  Hence each pick is the best of *all* functions that may be recommended,
those that were dropped included, and the loop stops short of the count only when nothing is left
(`Suite.recommend_spec`).
-/

namespace BenchCover

/-! ## The best function -/

namespace Suite

section Best

variable (suite : Suite) (projects : ProjectPrefixes) (overlap : SuiteOverlap)
  (earlier : List Recommended)

/-- What recommended functions newly reach together. -/
noncomputable def taken (project : Bool) : Finset FunctionId :=
  coverage (fun r : Recommended => suite.newlyReached projects overlap project r.function) earlier

/-- The rank of a function after some were recommended. -/
noncomputable def functionRank (f : Function) : Prospect.Rank :=
  Prospect.rankOf
    (suite.newlyReached projects overlap true f \ suite.taken projects overlap earlier true).card
    (suite.systemGraph.depth f.id)
    (suite.newlyReached projects overlap false f \ suite.taken projects overlap earlier false).card
    f.name

/-- **The best of the functions that may be recommended**, told with how much it adds. -/
structure BestFunction (r : Recommended) : Prop where
  known : suite.MayRecommend projects overlap r.function
  additional : r.additional = (suite.newlyReached projects overlap true r.function \
    suite.taken projects overlap earlier true).card
  positive : 0 < r.additional
  first : ∀ f, suite.MayRecommend projects overlap f →
    suite.functionRank projects overlap earlier r.function
      ≤ suite.functionRank projects overlap earlier f

end Best

variable {suite : Suite} {projects : ProjectPrefixes} {overlap : SuiteOverlap}
  {earlier : List Recommended}

lemma taken_concat (r : Recommended) (project : Bool) :
    suite.taken projects overlap (earlier ++ [r]) project
      = suite.taken projects overlap earlier project ∪
        suite.newlyReached projects overlap project r.function :=
  coverage_concat _ earlier r

lemma newlyReached_subset_taken {r : Recommended} (hr : r ∈ earlier) (project : Bool) :
    suite.newlyReached projects overlap project r.function
      ⊆ suite.taken projects overlap earlier project := by
  intro id hid
  exact mem_coverage.2 ⟨r, hr, hid⟩

/-- A best function reaches at least as much anew as any other. -/
lemma BestFunction.card_le {r : Recommended}
    (h : suite.BestFunction projects overlap earlier r) {f : Function}
    (hf : suite.MayRecommend projects overlap f) :
    (suite.newlyReached projects overlap true f \ suite.taken projects overlap earlier true).card
      ≤ r.additional := by
  by_contra hmore
  rw [h.additional, not_le] at hmore
  exact absurd (h.first f hf) (not_le.2 (Prospect.rankOf_lt_iff.2 (Or.inl hmore)))

/-- What recommended functions newly reach together is as much as they add one after the other. -/
lemma card_taken {picks : List Recommended}
    (hpicks : EachPick (suite.BestFunction projects overlap) [] picks) :
    (suite.taken projects overlap picks true).card = (picks.map (·.additional)).sum := by
  have hsum := card_coverage_append (hpicks.imp fun _ _ hbest => hbest.additional)
  rwa [List.nil_append, coverage_nil, Finset.card_empty, Nat.zero_add] at hsum

/-- Of different functions that may be recommended, no two have the same rank, if names differ. -/
lemma functionRank_lt_of_le {f h : Function}
    (hnames : (suite.systemGraph.functions.map (·.name)).Nodup)
    (hf : f ∈ suite.systemGraph.functions) (hh : h ∈ suite.systemGraph.functions) (hne : h ≠ f)
    (hle : suite.functionRank projects overlap earlier f
      ≤ suite.functionRank projects overlap earlier h) :
    suite.functionRank projects overlap earlier f
      < suite.functionRank projects overlap earlier h := by
  refine lt_of_le_of_ne hle fun hsame => hne ?_
  have hname : f.name = h.name := congrArg (fun r => (ofLex (ofLex (ofLex r).2).2).2) hsame
  exact List.inj_on_of_nodup_map hnames hh hf hname.symm

end Suite

namespace Prospect

variable {suite : Suite} {projects : ProjectPrefixes} {overlap : SuiteOverlap}
  {earlier : List Recommended} {remaining others : List Prospect} {best p : Prospect}

/-! ## The loop -/

def recommended (p : Prospect) : Recommended :=
  ⟨p.function, p.projectNodes.size⟩

/-- Taking a prospect that reaches itself out of another one. -/
lemma toFinset_nodes_without (hself : best.function.id ∈ best.projectNodes) (project : Bool) :
    ((p.without best).nodes project).toFinset
      = (p.nodes project).toFinset \ (best.nodes project).toFinset := by
  cases project with
  | false => exact IdSet.toFinset_diff _ _
  | true =>
    rw [nodes, without, IdSet.toFinset_diff, IdSet.toFinset_insert, Finset.insert_eq_of_mem]
    · rfl
    · exact IdSet.mem_toFinset.2 hself

/-- **The state of a recommendation**: what is left of the prospects after some were
recommended. -/
structure Recommending (suite : Suite) (projects : ProjectPrefixes) (overlap : SuiteOverlap)
    (earlier : List Recommended) (remaining : List Prospect) : Prop where
  known : ∀ p ∈ remaining, suite.MayRecommend projects overlap p.function
  level : ∀ p ∈ remaining, Levels.value p.level = suite.systemGraph.depth p.function.id
  left : ∀ p ∈ remaining, ∀ project, (p.nodes project).toFinset
    = suite.newlyReached projects overlap project p.function \
      suite.taken projects overlap earlier project
  fresh : ∀ p ∈ remaining, p.function.id ∉ suite.taken projects overlap earlier true
  /-- A function without a prospect adds nothing. -/
  spent : ∀ f, suite.MayRecommend projects overlap f → (∃ p ∈ remaining, p.function = f) ∨
    suite.newlyReached projects overlap true f ⊆ suite.taken projects overlap earlier true

namespace Recommending

lemma size_eq (h : Recommending suite projects overlap earlier remaining) (hp : p ∈ remaining)
    (project : Bool) : (p.nodes project).size
      = (suite.newlyReached projects overlap project p.function \
        suite.taken projects overlap earlier project).card := by
  rw [← h.left p hp, IdSet.card_toFinset]

lemma rank_eq (h : Recommending suite projects overlap earlier remaining) (hp : p ∈ remaining) :
    rank p = suite.functionRank projects overlap earlier p.function := by
  have hproject : p.projectNodes.size = _ := h.size_eq hp true
  have hothers : p.otherNodes.size = _ := h.size_eq hp false
  rw [rank, Suite.functionRank, h.level p hp, hproject, hothers]

/-- A prospect that remains reaches itself. -/
lemma self_mem (h : Recommending suite projects overlap earlier remaining) (hp : p ∈ remaining) :
    p.function.id ∈ p.projectNodes := by
  have hself : p.function.id ∈ (p.nodes true).toFinset := by
    rw [h.left p hp true]
    exact Finset.mem_sdiff.2 ⟨(h.known p hp).self_mem, h.fresh p hp⟩
  exact IdSet.mem_toFinset.1 hself

/-- **The first of the ranked prospects is the best function.** -/
lemma bestFunction (h : Recommending suite projects overlap earlier remaining)
    (hranked : ranked before remaining = best :: others) :
    suite.BestFunction projects overlap earlier best.recommended := by
  have hbest : best ∈ remaining := (mem_iff_of_ranked hranked).2 (Or.inl rfl)
  have hpositive : 0 < best.projectNodes.size := List.length_pos_of_mem (h.self_mem hbest)
  refine ⟨h.known best hbest, h.size_eq hbest true, hpositive, fun f hf => ?_⟩
  show suite.functionRank projects overlap earlier best.function ≤ _
  rw [← h.rank_eq hbest]
  rcases h.spent f hf with ⟨p, hp, rfl⟩ | hspent
  · rw [← h.rank_eq hp]
    exact rank_le_of_ranked before_iff hranked hp
  · -- a dropped function adds nothing, so the best one comes before it by what it adds alone
    rw [rank, Suite.functionRank, Finset.sdiff_eq_empty_iff_subset.2 hspent, Finset.card_empty]
    exact (rankOf_lt_iff.2 (Or.inl hpositive)).le

/-- **One recommendation keeps the invariant.** -/
lemma step (h : Recommending suite projects overlap earlier remaining)
    (hranked : ranked before remaining = best :: others) :
    Recommending suite projects overlap (earlier ++ [best.recommended])
      ((others.filter fun other => other.function.id ∉ best.projectNodes).map (·.without best)) := by
  have hmem : ∀ p, p ∈ remaining ↔ p = best ∨ p ∈ others := fun p => mem_iff_of_ranked hranked
  have hbest : best ∈ remaining := (hmem best).2 (Or.inl rfl)
  have hgain : best.projectNodes.toFinset = suite.newlyReached projects overlap true best.function \
      suite.taken projects overlap earlier true := h.left best hbest true
  have hkept : ∀ q ∈ (others.filter fun other =>
      other.function.id ∉ best.projectNodes).map (·.without best),
      ∃ p ∈ remaining, p.function.id ∉ best.projectNodes ∧ q = p.without best := by
    intro q hq
    obtain ⟨p, hp, rfl⟩ := List.mem_map.1 hq
    obtain ⟨hothers, hfresh⟩ := List.mem_filter.1 hp
    exact ⟨p, (hmem p).2 (Or.inr hothers), by simpa using hfresh, rfl⟩
  refine ⟨?_, ?_, ?_, ?_, ?_⟩
  · intro q hq
    obtain ⟨p, hp, -, rfl⟩ := hkept q hq
    exact h.known p hp
  · intro q hq
    obtain ⟨p, hp, -, rfl⟩ := hkept q hq
    exact h.level p hp
  · intro q hq project
    obtain ⟨p, hp, -, rfl⟩ := hkept q hq
    rw [toFinset_nodes_without (h.self_mem hbest), h.left p hp, h.left best hbest]
    exact (sdiff_coverage_concat _ _ earlier best.recommended).symm
  · intro q hq
    obtain ⟨p, hp, hnot, rfl⟩ := hkept q hq
    rw [Suite.taken_concat, Finset.mem_union, not_or]
    refine ⟨h.fresh p hp, fun hreached => hnot ?_⟩
    rw [← IdSet.mem_toFinset, hgain]
    exact Finset.mem_sdiff.2 ⟨hreached, h.fresh p hp⟩
  · intro f hf
    rw [Suite.taken_concat]
    rcases h.spent f hf with ⟨p, hp, rfl⟩ | hspent
    · by_cases hreached : p.function.id ∈ suite.newlyReached projects overlap true best.function
      · -- whatever is reached from a reached function is reached, and so the prospect is dropped
        exact Or.inr ((Suite.newlyReached_subset
          (Suite.reaches_of_mem_newlyReached hreached)).trans Finset.subset_union_right)
      · have hnot : p.function.id ∉ best.projectNodes := by
          rw [← IdSet.mem_toFinset, hgain]
          exact fun hgained => hreached (Finset.mem_sdiff.1 hgained).1
        rcases (hmem p).1 hp with rfl | hothers
        · exact absurd (h.self_mem hp) hnot
        · exact Or.inl ⟨p.without best, List.mem_map_of_mem
            (List.mem_filter.2 ⟨hothers, by simpa using hnot⟩), rfl⟩
    · exact Or.inr (hspent.trans Finset.subset_union_left)

/-- **A run of the loop**: it recommends no more than asked for, every recommendation is a best one,
and when it stops short of the count nothing is left to add. -/
theorem run {count : Nat} (h : Recommending suite projects overlap earlier remaining) :
    (recommend count remaining).length ≤ count ∧
      EachPick (suite.BestFunction projects overlap) earlier (recommend count remaining) ∧
      ((recommend count remaining).length < count → ∀ f, suite.MayRecommend projects overlap f →
        suite.newlyReached projects overlap true f
          ⊆ suite.taken projects overlap (earlier ++ recommend count remaining) true) := by
  fun_induction recommend count remaining generalizing earlier with
  | case1 remaining => exact ⟨le_rfl, trivial, fun hlt => absurd hlt (Nat.lt_irrefl 0)⟩
  | case2 count remaining hranked =>
    refine ⟨Nat.zero_le _, trivial, fun _ f hf => ?_⟩
    obtain rfl := eq_nil_of_ranked hranked
    simpa using h.spent f hf
  | case3 count remaining best others hranked hempty =>
    -- a prospect that remains reaches itself, so the loop never ends this way
    have hself := h.self_mem ((mem_iff_of_ranked hranked).2 (Or.inl rfl))
    rw [← IdSet.mem_toFinset, IdSet.isEmpty_iff.1 hempty] at hself
    exact absurd hself (Finset.notMem_empty _)
  | case4 count remaining best others hranked hsome kept =>
    rename_i ih
    obtain ⟨hlength, hpicks, hcovered⟩ := ih (h.step hranked)
    refine ⟨Nat.succ_le_succ hlength, ⟨h.bestFunction hranked, hpicks⟩, fun hlt f hf => ?_⟩
    have hrest := hcovered (Nat.lt_of_succ_lt_succ hlt) f hf
    rwa [List.append_assoc, List.singleton_append] at hrest

end Recommending

end Prospect

/-! ## The recommendations of a suite -/

namespace Suite

variable {suite : Suite} {projects : ProjectPrefixes} {overlap : SuiteOverlap}

lemma mem_prospects_iff {p : Prospect} : p ∈ suite.prospects projects overlap ↔
    ∃ f, suite.MayRecommend projects overlap f ∧
      p = .ofFunction suite.systemGraph (suite.systemGraph.levels suite.systemGraph.roots
        ((Exclusion.ofProjects projects).negate.either overlap.covered))
        (.ofProjects projects) overlap.covered f := by
  simp only [prospects, List.mem_map, List.mem_filter, Bool.and_eq_true, Bool.not_eq_true',
    ← Bool.not_eq_true, SuiteOverlap.covered_excludes]
  constructor
  · rintro ⟨f, ⟨hmem, hcovers, huncovered⟩, rfl⟩
    exact ⟨f, ⟨hmem, hcovers, huncovered⟩, rfl⟩
  · rintro ⟨f, ⟨hmem, hcovers, huncovered⟩, rfl⟩
    exact ⟨f, ⟨hmem, hcovers, huncovered⟩, rfl⟩

/-- The levels leave no function out that may be recommended. -/
lemma MayRecommend.value_level {f : Function} (hf : suite.MayRecommend projects overlap f) :
    Levels.value ((suite.systemGraph.levels suite.systemGraph.roots
      ((Exclusion.ofProjects projects).negate.either overlap.covered)).level? f.id)
      = suite.systemGraph.depth f.id := by
  refine CallGraph.value_levels_roots _ hf.mem fun distance => ?_
  have huncovered : ¬ overlap.covered.excludes f (some distance) = true :=
    SuiteOverlap.covered_excludes.not.2 hf.uncovered
  simpa [Exclusion.either, Exclusion.negate, Exclusion.ofProjects, hf.covers] using huncovered

lemma recommending_prospects (suite : Suite) (projects : ProjectPrefixes)
    (overlap : SuiteOverlap) :
    Prospect.Recommending suite projects overlap [] (suite.prospects projects overlap) := by
  refine ⟨?_, ?_, ?_, ?_, ?_⟩
  · intro p hp
    obtain ⟨f, hf, rfl⟩ := mem_prospects_iff.1 hp
    rwa [(Prospect.ofFunction_eq ..).1]
  · intro p hp
    obtain ⟨f, hf, rfl⟩ := mem_prospects_iff.1 hp
    rw [(Prospect.ofFunction_eq ..).1, (Prospect.ofFunction_eq ..).2, hf.value_level]
  · intro p hp project
    obtain ⟨f, hf, rfl⟩ := mem_prospects_iff.1 hp
    rw [(Prospect.ofFunction_eq ..).1, Prospect.toFinset_nodes_ofFunction hf.mem]
    exact Finset.sdiff_empty.symm
  · intro p _
    exact Finset.notMem_empty _
  · intro f hf
    exact Or.inl ⟨_, mem_prospects_iff.2 ⟨f, hf, rfl⟩, (Prospect.ofFunction_eq ..).1⟩

/-- **Recommendations**, in terms of what functions newly reach to begin with. -/
theorem recommend_spec (suite : Suite) (projects : ProjectPrefixes) (overlap : SuiteOverlap)
    (count : Nat) :
    (recommend projects suite overlap count).length ≤ count ∧
      EachPick (suite.BestFunction projects overlap) []
        (recommend projects suite overlap count) ∧
      ((recommend projects suite overlap count).length < count →
        ∀ f, suite.MayRecommend projects overlap f →
          suite.newlyReached projects overlap true f
            ⊆ suite.taken projects overlap (recommend projects suite overlap count) true) :=
  (recommending_prospects suite projects overlap).run

/-- **The greedy recommendation in closed form.**  If the functions of the system have different
names, each recommended function comes strictly before all others that may be recommended, in the
order of ranks after the recommendations in front of it; the number told with it is what it adds,
and it adds something.  There are fewer recommendations than asked for only if together they reach
all that any function newly reaches. -/
theorem recommend_picks_best (suite : Suite) (projects : ProjectPrefixes) (overlap : SuiteOverlap)
    (count : Nat) (hnames : (suite.systemGraph.functions.map (·.name)).Nodup) :
    (recommend projects suite overlap count).length ≤ count ∧
      (∀ earlier r later, recommend projects suite overlap count = earlier ++ r :: later →
        suite.MayRecommend projects overlap r.function ∧
        (∀ f, suite.MayRecommend projects overlap f → f ≠ r.function →
          suite.functionRank projects overlap earlier r.function
            < suite.functionRank projects overlap earlier f) ∧
        r.additional = (suite.newlyReached projects overlap true r.function \
          suite.taken projects overlap earlier true).card ∧
        1 ≤ r.additional) ∧
      ((recommend projects suite overlap count).length < count →
        ∀ f, suite.MayRecommend projects overlap f →
          suite.newlyReached projects overlap true f
            ⊆ suite.taken projects overlap (recommend projects suite overlap count) true) := by
  obtain ⟨hlength, hpicks, hcovered⟩ := suite.recommend_spec projects overlap count
  refine ⟨hlength, fun earlier r later hsplit => ?_, hcovered⟩
  have hbest := eachPick_iff.1 hpicks earlier r later hsplit
  rw [List.nil_append] at hbest
  refine ⟨hbest.known, fun f hf hne => ?_, hbest.additional, hbest.positive⟩
  exact functionRank_lt_of_le hnames hbest.known.mem hf.mem hne (hbest.first f hf)

/-- A system in which a project function and another function call each other, with a micro
benchmark that exercises the former. -/
def tangled : Suite where
  config := ⟨.dot, 100, .zero false, .zero false⟩
  system := "system"
  systemGraph :=
    { functions := [⟨0, "p/a", .zero, .zero⟩, ⟨1, "x", .zero, .zero⟩, ⟨2, "p/b", .zero, .zero⟩,
        ⟨3, "p/c", .zero, .zero⟩]
      calls := [⟨0, 1, .zero⟩, ⟨1, 2, .zero⟩, ⟨2, 1, .zero⟩]
      ids_nodup := by decide
      ends_nodup := by decide
      caller_mem := by decide
      callee_mem := by decide }
  micros := .ofList [("seen", CallGraph.empty.addFunction ⟨2, "p/b", .zero, .zero⟩)]
  registry := .empty

lemma prospects_tangled : tangled.prospects ⟨["p/"]⟩ (tangled.overlap ⟨["p/"]⟩ true)
    = [⟨⟨0, "p/a", .zero, .zero⟩, some 0, .ofList [0], .ofList [1]⟩,
      ⟨⟨3, "p/c", .zero, .zero⟩, some 0, .ofList [3], .empty⟩] := by
  decide +kernel

lemma recommend_tangled : recommend ⟨["p/"]⟩ tangled (tangled.overlap ⟨["p/"]⟩ true) 1
    = [⟨⟨0, "p/a", .zero, .zero⟩, 1⟩] := by
  rw [recommend, prospects_tangled, Prospect.recommend, ranked_of_pairwise (by decide +kernel)]
  rfl

theorem recommend_picks_best_tangled :
    (tangled.systemGraph.functions.map (·.name)).Nodup ∧
      ∀ f, tangled.MayRecommend ⟨["p/"]⟩ (tangled.overlap ⟨["p/"]⟩ true) f →
        f ≠ ⟨0, "p/a", .zero, .zero⟩ →
        tangled.functionRank ⟨["p/"]⟩ (tangled.overlap ⟨["p/"]⟩ true) [] ⟨0, "p/a", .zero, .zero⟩
          < tangled.functionRank ⟨["p/"]⟩ (tangled.overlap ⟨["p/"]⟩ true) [] f := by
  have hnames : (tangled.systemGraph.functions.map (·.name)).Nodup := by decide
  obtain ⟨-, hbest, -⟩ :=
    recommend_picks_best tangled ⟨["p/"]⟩ (tangled.overlap ⟨["p/"]⟩ true) 1 hnames
  exact ⟨hnames, (hbest [] ⟨⟨0, "p/a", .zero, .zero⟩, 1⟩ _ recommend_tangled).2.1⟩

end Suite

end BenchCover
