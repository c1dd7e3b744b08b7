import BenchCover.Proofs.Graph.Subgraph
import BenchCover.Proofs.Number.Literal
import BenchCover.Proofs.Suite.Recommendation

/-!
# What recommendations add to a suite

A suite is extended by a micro benchmark for each recommended function, the part of the system graph
that the function reaches.  The overlaps of the extended suite are computed anew from these graphs;
here they are compared with what was told of the recommendations.

**Keys.**  The key of a recommended function begins with its id, so that different functions have
different keys (`id_eq_of_recommendedKey_eq`).  Recommended functions are different, since each adds
something, and therefore no new micro benchmark takes the place of another one.

**Rows.**  A new micro benchmark shares with the system exactly the project functions that its
function reaches (`mem_sharedNodes_reachable_iff`).

**Total.**  Each row adds to the total what its function newly reaches, and these sets are disjoint
from each other and from what was covered before.  So the numbers that are told of the
recommendations add up to the growth of the total: `overlap_extend`.
-/

namespace BenchCover

/-! ## Keys of recommended functions -/

lemma toList_toString (id : Int) : (toString id).toList
    = if 0 ≤ id then Nat.toDigits 10 id.toNat else '-' :: Nat.toDigits 10 (-id).toNat := by
  rw [Int.toString_eq_repr, Int.repr_eq_if]
  split_ifs
  · exact Nat.toList_repr
  · rw [String.toList_append, Nat.toList_repr]
    rfl

lemma underscore_notMem_toString (id : FunctionId) : '_' ∉ (toString id).toList := by
  rw [toList_toString]
  split_ifs <;> simp

lemma toDigits_ne_minus_cons (n : ℕ) (l : List Char) : Nat.toDigits 10 n ≠ '-' :: l := by
  intro h
  have hmem : '-' ∈ Nat.toDigits 10 n := h ▸ List.mem_cons_self
  exact absurd (isDigit_of_mem_toDigits hmem) (by decide)

/-- Ids are told apart by how they are written. -/
lemma toList_toString_inj {a b : Int} (h : (toString a).toList = (toString b).toList) :
    a = b := by
  rw [toList_toString, toList_toString] at h
  split_ifs at h with ha hb hb
  · have := toDigits_inj h
    omega
  · exact absurd h (toDigits_ne_minus_cons _ _)
  · exact absurd h.symm (toDigits_ne_minus_cons _ _)
  · have := toDigits_inj (List.cons.inj h).2
    omega

/-- What stands in front of the first underscore. -/
lemma eq_of_append_underscore_eq {a b x y : List Char} (ha : '_' ∉ a) (hb : '_' ∉ b)
    (h : a ++ '_' :: x = b ++ '_' :: y) : a = b := by
  have hfront : ∀ l r : List Char, '_' ∉ l → (l ++ '_' :: r).takeWhile (· ≠ '_') = l := by
    intro l r hl
    rw [List.takeWhile_append_of_pos fun c hc => by
      simpa using fun hsame : c = '_' => hl (hsame ▸ hc)]
    simp
  rw [← hfront a x ha, h, hfront b y hb]

namespace Suite

variable {suite : Suite} {projects : ProjectPrefixes} {overlap : SuiteOverlap}

lemma id_eq_of_recommendedKey_eq {f h : Function}
    (hsame : suite.recommendedKey f = suite.recommendedKey h) : f.id = h.id := by
  have hlist := congrArg String.toList hsame
  simp only [recommendedKey, String.toList_append, List.append_assoc, List.append_cancel_left_eq]
    at hlist
  exact toList_toString_inj (eq_of_append_underscore_eq (underscore_notMem_toString f.id)
    (underscore_notMem_toString h.id) hlist)

/-- No two recommended functions have the same key, since the later one would add nothing. -/
lemma nodup_recommendedKeys {picks : List Recommended}
    (hpicks : EachPick (suite.BestFunction projects overlap) [] picks) :
    (picks.map fun r => suite.recommendedKey r.function).Nodup := by
  refine List.pairwise_map.2 (hpicks.pairwise fun earlier r hbest s hs hsame => ?_)
  have hid : s.function.id = r.function.id := id_eq_of_recommendedKey_eq hsame
  have hreaches : suite.systemGraph.Reaches s.function.id r.function.id := hid ▸ .refl _ _
  have hnone : suite.newlyReached projects overlap true r.function
      ⊆ suite.taken projects overlap earlier true :=
    (newlyReached_subset hreaches).trans (newlyReached_subset_taken hs true)
  have hadditional := hbest.additional
  rw [Finset.sdiff_eq_empty_iff_subset.2 hnone, Finset.card_empty] at hadditional
  have hpositive := hbest.positive
  omega

/-! ## The micro benchmarks of an extended suite -/

lemma foldl_addRecommended (source : Suite) (picks : List Recommended) (suite : Suite) :
    picks.foldl source.addRecommended suite
      = suite.withMicros (picks.foldl (fun micros r =>
          micros.insert (source.recommendedKey r.function)
            (source.systemGraph.reachableSubgraph r.function.id)) suite.micros) := by
  induction picks generalizing suite with
  | nil => rfl
  | cons r rest ih =>
    rw [List.foldl_cons, ih]
    rfl

/-- **A recommended function shares with the system what it reaches of the project.** -/
lemma mem_sharedNodes_reachable_iff {f : Function} (hf : f ∈ suite.systemGraph.functions)
    {systemName microName : String} {id : FunctionId} :
    id ∈ ((NodeOverlap.between projects true systemName microName suite.systemGraph
        (suite.systemGraph.reachableSubgraph f.id)).nodes .shared).keys ↔
      id ∈ suite.reached projects true f := by
  have hstart : f.id ∈ suite.systemGraph.ids := CallGraph.mem_ids_iff.2 ⟨f, hf, rfl⟩
  rw [NodeOverlap.mem_nodes_between_shared, NodeCounts.mem_keys_ofGraph,
    NodeCounts.mem_keys_ofGraph, mem_reached_iff, CallGraph.functions_reachableSubgraph]
  constructor
  · rintro ⟨-, h, hh, rfl, hcovers⟩
    obtain ⟨hmem, hreaches⟩ := (CallGraph.mem_reachable_iff hstart).1 hh
    exact ⟨h, hmem, rfl, hcovers rfl, hreaches⟩
  · rintro ⟨h, hmem, rfl, hcovers, hreaches⟩
    exact ⟨⟨h, hmem, rfl, fun _ => hcovers⟩, h,
      (CallGraph.mem_reachable_iff hstart).2 ⟨hmem, hreaches⟩, rfl, fun _ => hcovers⟩

section Extended

variable {count : Nat}

/-- **The micro benchmarks of an extended suite** are the old ones and those of the recommended
functions. -/
lemma micros_extend (hfresh : ∀ r ∈ recommend projects suite overlap count,
      suite.recommendedKey r.function ∉ suite.micros.keys) :
    (suite.extend projects overlap recommend count).suite.micros.size
        = suite.micros.size + (recommend projects suite overlap count).length ∧
      ∀ key micro,
        (suite.extend projects overlap recommend count).suite.micros.lookup key = some micro ↔
          suite.micros.lookup key = some micro ∨
            ∃ r ∈ recommend projects suite overlap count, suite.recommendedKey r.function = key ∧
              suite.systemGraph.reachableSubgraph r.function.id = micro := by
  have hnodup := nodup_recommendedKeys (suite.recommend_spec projects overlap count).2.1
  rw [extend]
  simp only
  rw [foldl_addRecommended]
  exact SortedMap.foldl_insert_spec hnodup hfresh

/-- The keys of an extended suite, whether or not new ones were in use. -/
lemma mem_keys_extend {recommender : Recommender} {key : String} :
    key ∈ (suite.extend projects overlap recommender count).suite.micros.keys ↔
      key ∈ suite.micros.keys ∨ ∃ r ∈ (suite.extend projects overlap recommender count).recommended,
        suite.recommendedKey r.function = key := by
  have hpicks : ∀ (picks : List Recommended) (micros : SortedMap String CallGraph),
      key ∈ (picks.foldl (fun micros r => micros.insert (suite.recommendedKey r.function)
        (suite.systemGraph.reachableSubgraph r.function.id)) micros).keys ↔
      key ∈ micros.keys ∨ ∃ r ∈ picks, suite.recommendedKey r.function = key := by
    intro picks
    induction picks with
    | nil => simp
    | cons r rest ih =>
      intro micros
      rw [List.foldl_cons, ih, SortedMap.mem_keys_insert, List.exists_mem_cons_iff, or_comm (a := key = _),
        or_assoc, eq_comm]
  rw [extend]
  simp only
  rw [foldl_addRecommended]
  exact hpicks _ _

lemma mem_of_mem_recommend {r : Recommended} (hr : r ∈ recommend projects suite overlap count) :
    r.function ∈ suite.systemGraph.functions := by
  obtain ⟨earlier, later, hsplit⟩ := List.append_of_mem hr
  have hpicks := (suite.recommend_spec projects overlap count).2.1
  exact (eachPick_iff.1 hpicks earlier r later hsplit).known.mem

lemma systemGraph_extend : (suite.extend projects overlap recommend count).suite.systemGraph
    = suite.systemGraph := by
  rw [extend]
  simp only
  rw [foldl_addRecommended]
  rfl

/-- **The total of an extended suite** has what was shared before, and what the recommended
functions newly reach. -/
lemma keySet_total_extend (hfresh : ∀ r ∈ recommend projects suite (suite.overlap projects true)
      count, suite.recommendedKey r.function ∉ suite.micros.keys) :
    ((suite.extend projects (suite.overlap projects true) recommend count).suite.overlap projects
        true).total.sharedNodes.keySet
      = (suite.overlap projects true).total.sharedNodes.keySet ∪
        suite.taken projects (suite.overlap projects true)
          (recommend projects suite (suite.overlap projects true) count) true := by
  obtain ⟨-, hmicros⟩ := micros_extend hfresh
  ext id
  have hnew := mem_total_iff (suite.extend projects (suite.overlap projects true) recommend
    count).suite projects true .shared id
  have hold := mem_total_iff suite projects true .shared id
  rw [systemGraph_extend] at hnew
  rw [Finset.mem_union, SortedMap.mem_keySet]
  constructor
  · intro hid
    obtain ⟨key, micro, hlookup, hid⟩ := hnew.1 hid
    rcases (hmicros key micro).1 hlookup with hlookup | ⟨r, hr, -, rfl⟩
    · exact Or.inl (SortedMap.mem_keySet.2 (hold.2 ⟨key, micro, hlookup, hid⟩))
    · have hreached := (mem_sharedNodes_reachable_iff (mem_of_mem_recommend hr)).1 hid
      by_cases hcovered : id ∈ (suite.overlap projects true).total.sharedNodes.keySet
      · exact Or.inl hcovered
      · exact Or.inr (newlyReached_subset_taken hr true
          (Finset.mem_sdiff.2 ⟨hreached, hcovered⟩))
  · rintro (hid | hid)
    · obtain ⟨key, micro, hlookup, hid⟩ := hold.1 (SortedMap.mem_keySet.1 hid)
      exact hnew.2 ⟨key, micro, (hmicros key micro).2 (Or.inl hlookup), hid⟩
    · obtain ⟨r, hr, hid⟩ := mem_coverage.1 hid
      exact hnew.2 ⟨_, _, (hmicros _ _).2 (Or.inr ⟨r, hr, rfl, rfl⟩),
        (mem_sharedNodes_reachable_iff (mem_of_mem_recommend hr)).2 (Finset.mem_sdiff.1 hid).1⟩

lemma exists_row_extend (hfresh : ∀ r ∈ recommend projects suite overlap count,
      suite.recommendedKey r.function ∉ suite.micros.keys) {r : Recommended}
    (hr : r ∈ recommend projects suite overlap count) :
    ∃ row, ((suite.extend projects overlap recommend count).suite.overlap projects
        true).micros.lookup (suite.recommendedKey r.function) = some row ∧
      row.sharedNodes.keySet = suite.reached projects true r.function := by
  have hmicro := ((micros_extend hfresh).2 _ _).2 (Or.inr ⟨r, hr, rfl, rfl⟩)
  refine ⟨_, lookup_overlap_of_some hmicro, ?_⟩
  rw [systemGraph_extend]
  ext id
  rw [SortedMap.mem_keySet]
  exact mem_sharedNodes_reachable_iff (mem_of_mem_recommend hr)

end Extended

/-! ## Sizes -/

variable {earlier picks : List Recommended}

lemma disjoint_taken : Disjoint overlap.total.sharedNodes.keySet
    (suite.taken projects overlap picks true) :=
  disjoint_coverage fun _ _ => Finset.disjoint_sdiff

/-- What a function reaches is what it adds and what was covered or reached before. -/
lemma card_reached {r : Recommended}
    (hbest : suite.BestFunction projects overlap earlier r) :
    (suite.reached projects true r.function).card
      = r.additional + (suite.reached projects true r.function ∩
          (overlap.total.sharedNodes.keySet ∪
            coverage (fun s : Recommended => suite.reached projects true s.function)
              earlier)).card := by
  have hcovered : overlap.total.sharedNodes.keySet ∪
      coverage (fun s : Recommended => suite.reached projects true s.function) earlier
      = overlap.total.sharedNodes.keySet ∪ suite.taken projects overlap earlier true := by
    ext id
    simp only [Finset.mem_union, taken, mem_coverage, newlyReached, Finset.mem_sdiff]
    constructor
    · rintro (hid | ⟨s, hs, hid⟩)
      · exact Or.inl hid
      · exact (em _).imp_right fun hnot => ⟨s, hs, hid, hnot⟩
    · rintro (hid | ⟨s, hs, hid, -⟩)
      · exact Or.inl hid
      · exact Or.inr ⟨s, hs, hid⟩
  rw [hcovered, hbest.additional, newlyReached, sdiff_sdiff_left]
  exact (Finset.card_sdiff_add_card_inter _ _).symm

/-- **The numbers of the recommendations add up.**  Let a suite be extended by the greedy
recommendation, and let none of the new keys be in use.

* There is one more micro benchmark for each recommendation, and the old ones are unchanged.
* The row of a recommended function shares with the system the project functions that it reaches:
  as many as it adds, and those that were covered before or that an earlier one reaches.
* The total grows by the gains of the recommendations, which are disjoint from it and from each
  other, and so its size grows by the numbers that are told of them. -/
theorem overlap_extend (suite : Suite) (projects : ProjectPrefixes) (count : Nat)
    (hfresh : ∀ r ∈ recommend projects suite (suite.overlap projects true) count,
      suite.recommendedKey r.function ∉ suite.micros.keys) :
    let before := suite.overlap projects true
    let extended := suite.extend projects before recommend count
    let after := extended.suite.overlap projects true
    (extended.suite.micros.size = suite.micros.size + extended.recommended.length ∧
      ∀ key micro, suite.micros.lookup key = some micro →
        extended.suite.micros.lookup key = some micro) ∧
    (∀ earlier r later, extended.recommended = earlier ++ r :: later →
      ∃ row, after.micros.lookup (suite.recommendedKey r.function) = some row ∧
        row.sharedNodes.keySet = suite.reached projects true r.function ∧
        row.sharedNodes.size = r.additional + (suite.reached projects true r.function ∩
          (before.total.sharedNodes.keySet ∪
            coverage (fun s : Recommended => suite.reached projects true s.function)
              earlier)).card) ∧
    after.total.sharedNodes.keySet
      = (gains (fun r : Recommended => suite.newlyReached projects before true r.function) []
          extended.recommended).foldl (· ∪ ·) before.total.sharedNodes.keySet ∧
    (before.total.sharedNodes.keySet ::
      gains (fun r : Recommended => suite.newlyReached projects before true r.function) []
        extended.recommended).Pairwise Disjoint ∧
    after.total.sharedNodes.size
      = before.total.sharedNodes.size + (extended.recommended.map (·.additional)).sum := by
  intro before extended after
  obtain ⟨hsize, hmicros⟩ := micros_extend hfresh
  have hpicks : EachPick (suite.BestFunction projects before) [] extended.recommended :=
    (suite.recommend_spec projects before count).2.1
  have htotal : after.total.sharedNodes.keySet = before.total.sharedNodes.keySet ∪
      suite.taken projects before extended.recommended true := keySet_total_extend hfresh
  refine ⟨⟨hsize, fun key micro hlookup => (hmicros key micro).2 (Or.inl hlookup)⟩, ?_, ?_, ?_, ?_⟩
  · intro earlier r later hsplit
    have hr : r ∈ extended.recommended := by
      rw [hsplit]
      exact List.mem_append_right _ List.mem_cons_self
    obtain ⟨row, hrow, hkeys⟩ := exists_row_extend hfresh hr
    have hbest := eachPick_iff.1 hpicks earlier r later hsplit
    refine ⟨row, hrow, hkeys, ?_⟩
    rw [← SortedMap.card_keySet, hkeys]
    exact card_reached hbest
  · have hunion := foldl_union_gains before.total.sharedNodes.keySet
      (fun r : Recommended => suite.newlyReached projects before true r.function) []
      extended.recommended
    rw [coverage_nil, Finset.union_empty] at hunion
    exact htotal.trans hunion.symm
  · have hpairwise := pairwise_disjoint_gains [] fun r (_ : r ∈ extended.recommended) =>
      (Finset.disjoint_sdiff : Disjoint before.total.sharedNodes.keySet
        (suite.newlyReached projects before true r.function))
    rwa [coverage_nil, Finset.union_empty] at hpairwise
  · rw [← SortedMap.card_keySet, ← SortedMap.card_keySet, htotal,
      Finset.card_union_of_disjoint disjoint_taken, card_taken hpicks]

theorem overlap_extend_tangled :
    ((tangled.extend ⟨["p/"]⟩ (tangled.overlap ⟨["p/"]⟩ true) recommend 1).suite.overlap ⟨["p/"]⟩
      true).total.sharedNodes.size = 2 := by
  have hfresh : ∀ r ∈ recommend ⟨["p/"]⟩ tangled (tangled.overlap ⟨["p/"]⟩ true) 1,
      tangled.recommendedKey r.function ∉ tangled.micros.keys := by
    rw [recommend_tangled]
    decide +kernel
  have hbefore : (tangled.overlap ⟨["p/"]⟩ true).total.sharedNodes.size = 1 := by decide +kernel
  have hrecommended : (tangled.extend ⟨["p/"]⟩ (tangled.overlap ⟨["p/"]⟩ true) recommend
      1).recommended = _ := recommend_tangled
  obtain ⟨-, -, -, -, hsize⟩ := overlap_extend tangled ⟨["p/"]⟩ 1 hfresh
  rwa [hbefore, hrecommended] at hsize

end Suite

end BenchCover
