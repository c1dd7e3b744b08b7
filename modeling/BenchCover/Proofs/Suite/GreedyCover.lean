import BenchCover.Proofs.Suite.Determinacy
import Mathlib.Algebra.BigOperators.Group.Finset.Piecewise

/-!
# Greedy covers

What a selection of micro benchmarks is, said without a loop and without an order of ranks.

`IsGreedyCover` says it of any list of picks: they are distinct, each of them covers more than any
other micro benchmark still does or has the smallest key of those that cover as much, what they cover
besides gets no more from pick to pick, and together they cover everything.  Only one list of picks is
one (`IsGreedyCover.isSelection`), and what is selected is one (`IsSelection.isGreedyCover`):
`Suite.isGreedyCover_iff`.
-/

namespace BenchCover

/-! ## Greedy covers -/

section Definitions

variable (sets : String → Finset FunctionId)

/-- What a micro benchmark covers that the picks so far do not. -/
def leftAfter (earlier : List Selected) (key : String) : Finset FunctionId :=
  sets key \ earlier.toFinset.biUnion fun s => sets s.key

/-- **A greedy cover** of what micro benchmarks cover, as a list of picks with their times. -/
structure IsGreedyCover (time : String → Duration) (keys : List String) (picks : List Selected) :
    Prop where
  known : ∀ s ∈ picks, s.key ∈ keys
  nodup : (picks.map (·.key)).Nodup
  additional : ∀ front s back, picks = front ++ s :: back →
    s.additional = (leftAfter sets front s.key).card ∧ 1 ≤ s.additional
  /-- A pick covers more than any other micro benchmark, or as much with a smaller key. -/
  best : ∀ front s back, picks = front ++ s :: back → ∀ key ∈ keys,
    (leftAfter sets front key).card < (leftAfter sets front s.key).card ∨
      (leftAfter sets front key).card = (leftAfter sets front s.key).card ∧ s.key ≤ key
  decreasing : picks.Pairwise fun s t => t.additional ≤ s.additional
  total : (picks.map (·.additional)).sum = (keys.toFinset.biUnion sets).card
  covers : ∀ key ∈ keys, sets key ⊆ picks.toFinset.biUnion fun s => sets s.key
  times : ∀ s ∈ picks, s.systemTime = time s.key

end Definitions

variable {sets : String → Finset FunctionId} {time : String → Duration} {keys : List String}
  {earlier picks : List Selected} {s : Selected}

lemma microRank_le_iff {key key' : String} : microRank sets earlier key ≤ microRank sets earlier key' ↔
    (leftAfter sets earlier key').card < (leftAfter sets earlier key).card ∨
      (leftAfter sets earlier key').card = (leftAfter sets earlier key).card ∧ key ≤ key' := by
  rw [microRank, microRank, Prod.Lex.toLex_le_toLex, OrderDual.toDual_lt_toDual, OrderDual.toDual_inj,
    eq_comm]
  rfl

/-- What is left gets less with every pick. -/
lemma card_leftAfter_append_le (front back : List Selected) (key : String) :
    (leftAfter sets (front ++ back) key).card ≤ (leftAfter sets front key).card := by
  refine Finset.card_le_card (Finset.sdiff_subset_sdiff (Finset.Subset.refl _) ?_)
  exact Finset.biUnion_subset_biUnion_of_subset_left _ fun r hr => by
    rw [List.mem_toFinset] at hr ⊢
    exact List.mem_append_left _ hr

/-- Nothing is left of a micro benchmark that was picked. -/
lemma leftAfter_of_mem (hs : s ∈ earlier) : leftAfter sets earlier s.key = ∅ :=
  Finset.sdiff_eq_empty_iff_subset.2
    (Finset.subset_biUnion_of_mem (fun s : Selected => sets s.key) (List.mem_toFinset.2 hs))

/-- A later pick could have been made before, so it covers no more besides. -/
lemma pairwise_additional (h : EachPick (BestMicro sets · keys ·) earlier picks) :
    picks.Pairwise fun s t => t.additional ≤ s.additional :=
  h.pairwise_of_split fun front s between t hbest hlater =>
    calc t.additional = (leftAfter sets (front ++ s :: between) t.key).card := hlater.additional
      _ ≤ (leftAfter sets front t.key).card := card_leftAfter_append_le ..
      _ ≤ s.additional := hbest.card_le hlater.known

namespace IsSelection

variable (h : IsSelection sets time keys picks)

include h

lemma bestMicro {front back : List Selected} (hsplit : picks = front ++ s :: back) :
    BestMicro sets front keys s := by
  simpa using eachPick_iff.1 h.each front s back hsplit

/-- No micro benchmark is picked twice, because nothing is left of it. -/
lemma nodup_keys : (picks.map (·.key)).Nodup := by
  rw [List.Nodup, List.pairwise_map]
  refine h.each.pairwise fun earlier s hbest r hr hsame => ?_
  have hadditional : s.additional = (leftAfter sets earlier s.key).card := hbest.additional
  rw [← hsame, leftAfter_of_mem hr, Finset.card_empty] at hadditional
  exact absurd hbest.positive (by omega)

/-- The picks cover together what all micro benchmarks do. -/
lemma coverage_eq : selectedCoverage sets picks = keys.toFinset.biUnion sets := by
  refine Finset.Subset.antisymm (fun id hid => ?_) (Finset.biUnion_subset.2 fun key hkey => ?_)
  · obtain ⟨s, hs, hids⟩ := mem_coverage.1 hid
    exact Finset.mem_biUnion.2 ⟨s.key, List.mem_toFinset.2 (h.key_mem hs), hids⟩
  · exact h.covers key (List.mem_toFinset.1 hkey)

lemma sum_additional :
    (picks.map (·.additional)).sum = (keys.toFinset.biUnion sets).card := by
  have hgains : EachPick (fun earlier s =>
      Selected.additional s = (gain (fun r : Selected => sets r.key) earlier s).card) [] picks :=
    h.each.imp fun _ _ hbest => hbest.additional
  have hsum := card_coverage_append hgains
  rw [List.nil_append, coverage_nil, Finset.card_empty, Nat.zero_add] at hsum
  rw [← hsum, ← h.coverage_eq]
  rfl

/-- **A selection is a greedy cover.** -/
theorem isGreedyCover : IsGreedyCover sets time keys picks where
  known _ hs := h.key_mem hs
  nodup := h.nodup_keys
  additional _ _ _ hsplit := ⟨(h.bestMicro hsplit).additional, (h.bestMicro hsplit).positive⟩
  best _ _ _ hsplit key hkey := microRank_le_iff.1 ((h.bestMicro hsplit).first key hkey)
  decreasing := pairwise_additional h.each
  total := h.sum_additional
  covers := h.covers
  times := h.times

end IsSelection

/-- **A greedy cover is a selection.** -/
theorem IsGreedyCover.isSelection (h : IsGreedyCover sets time keys picks) :
    IsSelection sets time keys picks where
  each := by
    refine eachPick_iff.2 fun front s back hsplit => ?_
    obtain ⟨hadditional, hpositive⟩ := h.additional front s back hsplit
    have hs : s ∈ picks := by
      rw [hsplit]
      exact List.mem_append_right _ List.mem_cons_self
    exact ⟨h.known s hs, hadditional, hpositive,
      fun key hkey => microRank_le_iff.2 (h.best front s back hsplit key hkey)⟩
  covers := h.covers
  times := h.times

/-! ## Times -/

namespace Suite

/-- The time that the system benchmark itself spends in some functions, of which it may lack a few. -/
def systemTimeIn (suite : Suite) (covered : Finset FunctionId) : Duration :=
  ⟨((suite.systemGraph.functions.filter (·.id ∈ covered)).map (·.selfTime.nanoseconds)).sum⟩

lemma systemTimeOf_id {suite : Suite} {f : Function} (hf : f ∈ suite.systemGraph.functions) :
    suite.systemTimeOf f.id = f.selfTime := by
  rw [systemTimeOf, CallGraph.function?_eq_some_iff.2 ⟨hf, rfl⟩]
  rfl

/-- **The time of a micro benchmark** is that of the functions of the system which it covers. -/
lemma timeOf_eq_systemTimeIn (suite : Suite) (overlap : SuiteOverlap) (strategy : Strategy)
    (exclusion : Exclusion) (key : String) : suite.timeOf overlap strategy exclusion key
      = suite.systemTimeIn (suite.coverOf overlap strategy exclusion key) := by
  have hnodup : (suite.systemGraph.ids.filter
      (· ∈ suite.coverOf overlap strategy exclusion key)).Nodup :=
    suite.systemGraph.ids_nodup.filter _
  have hids : (suite.systemGraph.ids.filter
      (· ∈ suite.coverOf overlap strategy exclusion key)).toFinset
        ⊆ suite.coverOf overlap strategy exclusion key := by
    intro id hid
    simpa using (List.mem_filter.1 (List.mem_toFinset.1 hid)).2
  rw [timeOf, systemTimeIn]
  refine congrArg Duration.mk ?_
  rw [← Finset.sum_subset hids fun id hid hother => ?_, List.sum_toFinset _ hnodup]
  · rw [CallGraph.ids, List.filter_map, List.map_map]
    refine congrArg List.sum (List.map_congr_left fun f hf => ?_)
    exact congrArg Duration.nanoseconds (systemTimeOf_id (List.mem_of_mem_filter hf))
  · have habsent : id ∉ suite.systemGraph.ids := fun hmem =>
      hother (List.mem_toFinset.2 (List.mem_filter.2 ⟨hmem, by simpa using hid⟩))
    rw [systemTimeOf, CallGraph.function?_eq_none_iff.2 habsent]
    rfl

/-- **What is selected is the one greedy cover** of what the micro benchmarks cover, with the time of
each of them whatever the picks before it cover. -/
theorem isGreedyCover_iff (suite : Suite) (overlap : SuiteOverlap) (strategy : Strategy)
    (exclusion : Exclusion) (picks : List Selected) :
    IsGreedyCover (suite.coverOf overlap strategy exclusion)
        (fun key => suite.systemTimeIn (suite.coverOf overlap strategy exclusion key))
        overlap.micros.keys picks ↔
      picks = suite.select overlap strategy exclusion := by
  have htimes : suite.timeOf overlap strategy exclusion
      = fun key => suite.systemTimeIn (suite.coverOf overlap strategy exclusion key) :=
    funext (suite.timeOf_eq_systemTimeIn overlap strategy exclusion)
  have hselect := suite.isSelection_select overlap strategy exclusion
  rw [htimes] at hselect
  constructor
  · exact fun h => h.isSelection.unique hselect
  · rintro rfl
    exact hselect.isGreedyCover

end Suite

end BenchCover
