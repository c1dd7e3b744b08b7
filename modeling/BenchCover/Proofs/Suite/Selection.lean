import BenchCover.Proofs.FiniteSets
import BenchCover.Proofs.Graph.Distance
import BenchCover.Proofs.Suite.Greedy
import BenchCover.Suite.Minimization
import Mathlib.Data.Prod.Lex
import Mathlib.Data.String.Basic

/-!
# What a selection of micro benchmarks is

The loop that selects candidates works on sets that shrink with every pick.  Here it is compared
with what the micro benchmarks cover to begin with, `Suite.coverOf`.

`Candidate.Selecting` is the invariant: a candidate that remains has what it covers less what the
picks so far cover, and a micro benchmark that does not remain covers nothing else any more.  From
it each pick is the best of *all* micro benchmarks, those picked before included (`BestMicro`), and
the loop ends only when nothing is left to cover.  `Suite.select_spec` states both for a suite.
-/

namespace BenchCover

open OrderDual (toDual)

/-! ## The best micro benchmark -/

section Best

variable (sets : String → Finset FunctionId) (earlier : List Selected)

/-- What selected micro benchmarks cover together. -/
def selectedCoverage : Finset FunctionId :=
  coverage (fun s : Selected => sets s.key) earlier

/-- The rank of a micro benchmark after some were selected: the one that covers most besides comes
first, and of those that cover equally much the one with the smaller key. -/
def microRank (key : String) : ℕᵒᵈ ×ₗ String :=
  toLex (toDual (sets key \ selectedCoverage sets earlier).card, key)

/-- **The best of the micro benchmarks**, told with what it covers besides. -/
structure BestMicro (keys : List String) (s : Selected) : Prop where
  known : s.key ∈ keys
  additional : s.additional = (sets s.key \ selectedCoverage sets earlier).card
  positive : 0 < s.additional
  first : ∀ key ∈ keys, microRank sets earlier s.key ≤ microRank sets earlier key

end Best

variable {sets : String → Finset FunctionId} {keys : List String} {earlier : List Selected}
  {remaining others : List Candidate} {best : Candidate}

lemma selectedCoverage_concat (s : Selected) :
    selectedCoverage sets (earlier ++ [s]) = selectedCoverage sets earlier ∪ sets s.key :=
  coverage_concat _ earlier s

lemma BestMicro.card_le {s : Selected} (h : BestMicro sets earlier keys s) {key : String}
    (hkey : key ∈ keys) : (sets key \ selectedCoverage sets earlier).card ≤ s.additional := by
  have hfirst := h.first key hkey
  rw [microRank, microRank, Prod.Lex.toLex_le_toLex, OrderDual.toDual_lt_toDual,
    OrderDual.toDual_inj, ← h.additional] at hfirst
  rcases hfirst with hlt | ⟨heq, -⟩
  · exact hlt.le
  · exact heq.ge

namespace Candidate

/-! ## The loop -/

def rank (c : Candidate) : ℕᵒᵈ ×ₗ String :=
  toLex (toDual c.nodes.size, c.key)

lemma before_iff (a b : Candidate) : before a b = true ↔ rank a < rank b := by
  rw [rank, rank, Prod.Lex.toLex_lt_toLex, OrderDual.toDual_lt_toDual, OrderDual.toDual_inj, before]
  split_ifs with hsame
  · simp [hsame]
  · simp [hsame]

/-- **The state of a selection**: what is left of the candidates after some were selected. -/
structure Selecting (sets : String → Finset FunctionId) (keys : List String)
    (earlier : List Selected) (remaining : List Candidate) : Prop where
  known : ∀ c ∈ remaining, c.key ∈ keys
  left : ∀ c ∈ remaining, c.nodes.toFinset = sets c.key \ selectedCoverage sets earlier
  /-- A micro benchmark without a candidate covers nothing else. -/
  spent : ∀ key ∈ keys,
    (∃ c ∈ remaining, c.key = key) ∨ sets key ⊆ selectedCoverage sets earlier

namespace Selecting

lemma size_eq (h : Selecting sets keys earlier remaining) {c : Candidate} (hc : c ∈ remaining) :
    c.nodes.size = (sets c.key \ selectedCoverage sets earlier).card := by
  rw [← h.left c hc, IdSet.card_toFinset]

lemma rank_eq (h : Selecting sets keys earlier remaining) {c : Candidate} (hc : c ∈ remaining) :
    rank c = microRank sets earlier c.key := by
  rw [rank, microRank, h.size_eq hc]

/-- **The first of the ranked candidates is the best micro benchmark**, if it covers anything. -/
lemma bestMicro (h : Selecting sets keys earlier remaining)
    (hranked : ranked before remaining = best :: others) (hsome : ¬ best.nodes.isEmpty = true) :
    BestMicro sets earlier keys best.selected := by
  have hbest : best ∈ remaining := (mem_iff_of_ranked hranked).2 (Or.inl rfl)
  have hpositive : 0 < best.nodes.size := by
    rw [← IdSet.card_toFinset, Finset.card_pos, Finset.nonempty_iff_ne_empty]
    exact fun hempty => hsome (IdSet.isEmpty_iff.2 hempty)
  refine ⟨h.known best hbest, h.size_eq hbest, hpositive, fun key hkey => ?_⟩
  show microRank sets earlier best.key ≤ _
  rw [← h.rank_eq hbest]
  rcases h.spent key hkey with ⟨c, hc, rfl⟩ | hspent
  · rw [← h.rank_eq hc]
    exact rank_le_of_ranked before_iff hranked hc
  · -- nothing is left of this one, so the best candidate comes before it by size alone
    rw [rank, microRank, Finset.sdiff_eq_empty_iff_subset.2 hspent, Finset.card_empty]
    exact (Prod.Lex.toLex_lt_toLex.2 (Or.inl (OrderDual.toDual_lt_toDual.2 hpositive))).le

/-- **One pick keeps the invariant.** -/
lemma step (h : Selecting sets keys earlier remaining)
    (hranked : ranked before remaining = best :: others) :
    Selecting sets keys (earlier ++ [best.selected]) (others.map (·.without best)) := by
  have hmem : ∀ c, c ∈ remaining ↔ c = best ∨ c ∈ others := fun c => mem_iff_of_ranked hranked
  have hbest := h.left best ((hmem best).2 (Or.inl rfl))
  refine ⟨?_, ?_, ?_⟩
  · intro c hc
    obtain ⟨d, hd, rfl⟩ := List.mem_map.1 hc
    exact h.known d ((hmem d).2 (Or.inr hd))
  · intro c hc
    obtain ⟨d, hd, rfl⟩ := List.mem_map.1 hc
    show (d.nodes.diff best.nodes).toFinset = _
    rw [IdSet.toFinset_diff, h.left d ((hmem d).2 (Or.inr hd)), hbest]
    exact (sdiff_coverage_concat _ _ earlier best.selected).symm
  · intro key hkey
    rw [selectedCoverage_concat]
    rcases h.spent key hkey with ⟨c, hc, rfl⟩ | hspent
    · rcases (hmem c).1 hc with rfl | hc
      · exact Or.inr Finset.subset_union_right
      · exact Or.inl ⟨c.without best, List.mem_map_of_mem hc, rfl⟩
    · exact Or.inr (hspent.trans Finset.subset_union_left)

/-- When the first of the ranked candidates covers nothing, nothing is left to cover. -/
lemma covered_of_isEmpty (h : Selecting sets keys earlier remaining)
    (hranked : ranked before remaining = best :: others) (hempty : best.nodes.isEmpty = true)
    {key : String} (hkey : key ∈ keys) : sets key ⊆ selectedCoverage sets earlier := by
  rcases h.spent key hkey with ⟨c, hc, rfl⟩ | hspent
  · have hbest : best.nodes.size = 0 := by
      rw [← IdSet.card_toFinset, IdSet.isEmpty_iff.1 hempty, Finset.card_empty]
    have hle := rank_le_of_ranked before_iff hranked hc
    rw [rank, rank, Prod.Lex.toLex_le_toLex, OrderDual.toDual_lt_toDual, OrderDual.toDual_inj,
      hbest, h.size_eq hc] at hle
    have hzero : (sets c.key \ selectedCoverage sets earlier).card = 0 := by
      rcases hle with hlt | ⟨heq, -⟩ <;> omega
    exact Finset.sdiff_eq_empty_iff_subset.1 (Finset.card_eq_zero.1 hzero)
  · exact hspent

/-- **A run of the loop**: every pick is a best one, and in the end everything is covered. -/
theorem run (h : Selecting sets keys earlier remaining) :
    EachPick (BestMicro sets · keys ·) earlier ((selectAll remaining).map (·.selected)) ∧
      ∀ key ∈ keys,
        sets key ⊆ selectedCoverage sets (earlier ++ (selectAll remaining).map (·.selected)) := by
  fun_induction selectAll remaining generalizing earlier with
  | case1 remaining hranked =>
    refine ⟨trivial, fun key hkey => ?_⟩
    obtain rfl := eq_nil_of_ranked hranked
    simpa using h.spent key hkey
  | case2 remaining best others hranked hempty =>
    refine ⟨trivial, fun key hkey => ?_⟩
    simpa using h.covered_of_isEmpty hranked hempty hkey
  | case3 remaining best others hranked hsome ih =>
    obtain ⟨hpicks, hcovered⟩ := ih (h.step hranked)
    refine ⟨⟨h.bestMicro hranked hsome, hpicks⟩, fun key hkey => ?_⟩
    simpa using hcovered key hkey

end Selecting

end Candidate

/-! ## The candidates of a suite -/

namespace Suite

/-- The function that an id stands for under a key: that of the micro benchmark, and if it has none
that of the system. -/
def functionFor? (suite : Suite) (key : String) (id : FunctionId) : Option Function :=
  ((suite.micros.lookup key).bind (·.function? id)).or (suite.systemGraph.function? id)

/-- **What a micro benchmark covers** under a strategy: the ids on the side of its overlap that the
strategy aims at which stand for a function that is not left out. -/
def coverOf (suite : Suite) (overlap : SuiteOverlap) (strategy : Strategy) (exclusion : Exclusion)
    (key : String) : Finset FunctionId :=
  match overlap.micros.lookup key with
  | none => ∅
  | some row => (row.nodes strategy.side).keySet.filter fun id =>
      (suite.functionFor? key id).any fun f => !exclusion.excludes f none

variable {suite : Suite} {overlap : SuiteOverlap} {strategy : Strategy} {exclusion : Exclusion}
  {key : String}

lemma mem_coverOf_iff {row : NodeOverlap} (hrow : overlap.micros.lookup key = some row)
    {id : FunctionId} :
    id ∈ suite.coverOf overlap strategy exclusion key ↔
      id ∈ (row.nodes strategy.side).keys ∧
        ∃ f, suite.functionFor? key id = some f ∧ exclusion.excludes f none = false := by
  simp [coverOf, hrow, Option.any_eq_true]

/-- Adding a function to a candidate: its key stays, and the id is covered if it stands for a
function that is not left out. -/
lemma addNode_spec (suite : Suite) (exclusion : Exclusion) (c : Candidate) (key : String)
    (id : FunctionId) :
    (c.addNode suite exclusion (suite.micros.lookup key) id).key = c.key ∧
      ∀ other, other ∈ (c.addNode suite exclusion (suite.micros.lookup key) id).nodes ↔
        other ∈ c.nodes ∨ other = id ∧
          (suite.functionFor? key id).any (fun f => !exclusion.excludes f none) = true := by
  rw [Candidate.addNode, ← functionFor?]
  cases suite.functionFor? key id with
  | none => simp
  | some f =>
    cases hexcluded : exclusion.excludes f none with
    | true => simp [hexcluded]
    | false => simp [hexcluded, or_comm]

lemma foldl_addNode_spec (suite : Suite) (exclusion : Exclusion) (key : String)
    (ids : List FunctionId) (c : Candidate) :
    (ids.foldl (Candidate.addNode suite exclusion (suite.micros.lookup key)) c).key = c.key ∧
      ∀ other,
        other ∈ (ids.foldl (Candidate.addNode suite exclusion (suite.micros.lookup key)) c).nodes ↔
          other ∈ c.nodes ∨ other ∈ ids ∧
            (suite.functionFor? key other).any (fun f => !exclusion.excludes f none) = true := by
  induction ids generalizing c with
  | nil => simp
  | cons id rest ih =>
    obtain ⟨hkey, hnodes⟩ := addNode_spec suite exclusion c key id
    obtain ⟨hkeys, hrest⟩ := ih (c.addNode suite exclusion (suite.micros.lookup key) id)
    refine ⟨by rw [List.foldl_cons, hkeys, hkey], fun other => ?_⟩
    rw [List.foldl_cons, hrest, hnodes, List.mem_cons]
    constructor
    · rintro ((hold | ⟨rfl, hcounted⟩) | ⟨hmem, hcounted⟩)
      · exact Or.inl hold
      · exact Or.inr ⟨Or.inl rfl, hcounted⟩
      · exact Or.inr ⟨Or.inr hmem, hcounted⟩
    · rintro (hold | ⟨rfl | hmem, hcounted⟩)
      · exact Or.inl (Or.inl hold)
      · exact Or.inl (Or.inr ⟨rfl, hcounted⟩)
      · exact Or.inr ⟨hmem, hcounted⟩

lemma key_ofNodes (suite : Suite) (exclusion : Exclusion) (key : String) (ids : List FunctionId) :
    (Candidate.ofNodes suite exclusion key ids).key = key :=
  (foldl_addNode_spec suite exclusion key ids (.start key)).1

/-- A candidate starts with what its micro benchmark covers. -/
lemma nodes_ofNodes {row : NodeOverlap} (hrow : overlap.micros.lookup key = some row) :
    (Candidate.ofNodes suite exclusion key (row.nodes strategy.side).keys).nodes.toFinset
      = suite.coverOf overlap strategy exclusion key := by
  ext id
  have hnodes := (foldl_addNode_spec suite exclusion key (row.nodes strategy.side).keys
    (.start key)).2 id
  rw [IdSet.mem_toFinset, Candidate.ofNodes, hnodes, mem_coverOf_iff hrow]
  simp [Candidate.start, Option.any_eq_true]

lemma selecting_candidates (suite : Suite) (overlap : SuiteOverlap) (strategy : Strategy)
    (exclusion : Exclusion) :
    Candidate.Selecting (suite.coverOf overlap strategy exclusion) overlap.micros.keys []
      (suite.candidates overlap strategy exclusion) := by
  refine ⟨?_, ?_, ?_⟩
  · intro c hc
    obtain ⟨⟨key, row⟩, hentry, rfl⟩ := List.mem_map.1 hc
    rw [key_ofNodes]
    exact List.mem_map_of_mem hentry
  · intro c hc
    obtain ⟨⟨key, row⟩, hentry, rfl⟩ := List.mem_map.1 hc
    rw [key_ofNodes, nodes_ofNodes (SortedMap.lookup_eq_some_iff.2 hentry)]
    simp [selectedCoverage]
  · intro key hkey
    obtain ⟨⟨k, row⟩, hentry, rfl⟩ := List.mem_map.1 hkey
    exact Or.inl ⟨_, List.mem_map_of_mem hentry, key_ofNodes ..⟩

/-- **A selection**, in terms of what the micro benchmarks cover to begin with: every pick is the
best of all micro benchmarks at its time, and the picks together cover everything. -/
theorem select_spec (suite : Suite) (overlap : SuiteOverlap) (strategy : Strategy)
    (exclusion : Exclusion) :
    EachPick (BestMicro (suite.coverOf overlap strategy exclusion) · overlap.micros.keys ·) []
        (suite.select overlap strategy exclusion) ∧
      ∀ key ∈ overlap.micros.keys, suite.coverOf overlap strategy exclusion key ⊆
        selectedCoverage (suite.coverOf overlap strategy exclusion)
          (suite.select overlap strategy exclusion) :=
  (selecting_candidates suite overlap strategy exclusion).run

end Suite

end BenchCover
