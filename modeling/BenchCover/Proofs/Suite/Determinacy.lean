import BenchCover.Proofs.Suite.Selection
import Mathlib.Algebra.BigOperators.Group.List.Basic
import Mathlib.Algebra.BigOperators.Group.Finset.Basic

/-!
# What a selection depends on

A selection of micro benchmarks is determined by what each of them covers and by the time that the
system spends there.  `IsSelection` is the closed form of `BenchCover/Proofs/Suite/Selection.lean`
together with the times, in two groups.

**Uniqueness.**  After the same picks there is only one best micro benchmark, because the rank ends
in the key, and a run of picks can neither end early nor go on when nothing is left.  So two
selections from the same sets are the same list (`IsSelection.unique`).

**Change of the sets.**  A selection stays one when micro benchmarks that it does not pick are left
out (`IsSelection.restrict`), and when the members of all sets are renamed alike
(`IsSelection.rename`), because ranks compare nothing but sizes and keys.
-/

namespace BenchCover

variable {sets sets' : String → Finset FunctionId} {time : String → Duration}
  {keys keys' : List String} {earlier picks picks' : List Selected} {s s' : Selected}

/-- **A selection in closed form**: every pick is a best micro benchmark with its time, and the
picks together cover everything. -/
structure IsSelection (sets : String → Finset FunctionId) (time : String → Duration)
    (keys : List String) (picks : List Selected) : Prop where
  each : EachPick (BestMicro sets · keys ·) [] picks
  covers : ∀ key ∈ keys, sets key ⊆ selectedCoverage sets picks
  times : ∀ s ∈ picks, s.systemTime = time s.key

/-! ## Uniqueness -/

namespace BestMicro

lemma not_subset (h : BestMicro sets earlier keys s) :
    ¬ sets s.key ⊆ selectedCoverage sets earlier := by
  intro hsubset
  have hadditional := h.additional
  rw [Finset.sdiff_eq_empty_iff_subset.2 hsubset, Finset.card_empty] at hadditional
  exact absurd h.positive (by omega)

lemma key_eq (h : BestMicro sets earlier keys s) (h' : BestMicro sets earlier keys s') :
    s.key = s'.key := by
  have hrank := le_antisymm (h.first s'.key h'.known) (h'.first s.key h.known)
  exact congrArg (fun rank => (ofLex rank).2) hrank

/-- There is one best micro benchmark, up to its time. -/
lemma eq (h : BestMicro sets earlier keys s) (h' : BestMicro sets earlier keys s')
    (htime : s.systemTime = time s.key) (htime' : s'.systemTime = time s'.key) : s = s' := by
  obtain ⟨key, additional, systemTime⟩ := s
  obtain ⟨key', additional', systemTime'⟩ := s'
  obtain rfl : key = key' := h.key_eq h'
  obtain rfl : additional = additional' := h.additional.trans h'.additional.symm
  obtain rfl : systemTime = systemTime' := htime.trans htime'.symm
  rfl

end BestMicro

lemma eq_of_eachPick (hpicks : EachPick (BestMicro sets · keys ·) earlier picks)
    (hpicks' : EachPick (BestMicro sets · keys ·) earlier picks')
    (hcovers : ∀ key ∈ keys, sets key ⊆ selectedCoverage sets (earlier ++ picks))
    (hcovers' : ∀ key ∈ keys, sets key ⊆ selectedCoverage sets (earlier ++ picks'))
    (htimes : ∀ s ∈ picks, s.systemTime = time s.key)
    (htimes' : ∀ s ∈ picks', s.systemTime = time s.key) : picks = picks' := by
  induction picks generalizing earlier picks' with
  | nil =>
    cases picks' with
    | nil => rfl
    | cons s' later' =>
      rw [List.append_nil] at hcovers
      exact absurd (hcovers s'.key hpicks'.1.known) hpicks'.1.not_subset
  | cons s later ih =>
    cases picks' with
    | nil =>
      rw [List.append_nil] at hcovers'
      exact absurd (hcovers' s.key hpicks.1.known) hpicks.1.not_subset
    | cons s' later' =>
      obtain rfl : s = s' := hpicks.1.eq hpicks'.1 (htimes s List.mem_cons_self)
        (htimes' s' List.mem_cons_self)
      have hrest : later = later' :=
        ih hpicks.2 hpicks'.2 (by simpa using hcovers) (by simpa using hcovers')
          (fun r hr => htimes r (List.mem_cons_of_mem _ hr))
          fun r hr => htimes' r (List.mem_cons_of_mem _ hr)
      rw [hrest]

/-- **There is one selection.** -/
theorem IsSelection.unique (h : IsSelection sets time keys picks)
    (h' : IsSelection sets time keys picks') : picks = picks' :=
  eq_of_eachPick h.each h'.each h.covers h'.covers h.times h'.times

lemma IsSelection.key_mem (h : IsSelection sets time keys picks) (hs : s ∈ picks) :
    s.key ∈ keys := by
  obtain ⟨front, back, hsplit⟩ := List.append_of_mem hs
  exact (eachPick_iff.1 h.each front s back hsplit).known

/-! ## Change of the sets -/

/-- **Micro benchmarks that are not picked do not matter.** -/
theorem IsSelection.restrict (h : IsSelection sets time keys picks) (hsubset : keys' ⊆ keys)
    (hkept : ∀ s ∈ picks, s.key ∈ keys') : IsSelection sets time keys' picks where
  each := by
    refine eachPick_iff.2 fun front s back hsplit => ?_
    have hbest := eachPick_iff.1 h.each front s back hsplit
    have hs : s ∈ picks := by
      rw [hsplit]
      exact List.mem_append_right _ List.mem_cons_self
    exact ⟨hkept s hs, hbest.additional, hbest.positive,
      fun key hkey => hbest.first key (hsubset hkey)⟩
  covers := fun key hkey => h.covers key (hsubset hkey)
  times := h.times

/-- **Sets whose members are renamed**, with different names for different members. -/
structure Renamed (ρ : FunctionId → FunctionId) (keys : List String)
    (sets sets' : String → Finset FunctionId) : Prop where
  image : ∀ key ∈ keys, sets' key = (sets key).image ρ
  inj : ∀ key ∈ keys, ∀ key' ∈ keys, ∀ id ∈ sets key, ∀ id' ∈ sets key', ρ id = ρ id' → id = id'

/-- Sets that are the same are renamed in particular. -/
lemma Renamed.of_eq (h : ∀ key ∈ keys, sets' key = sets key) : Renamed id keys sets sets' where
  image := fun key hkey => by rw [h key hkey, Finset.image_id]
  inj := fun _ _ _ _ _ _ _ _ hsame => hsame

namespace Renamed

variable {ρ : FunctionId → FunctionId} {key : String}

lemma mem_iff (h : Renamed ρ keys sets sets') {key' : String} (hkey : key ∈ keys)
    (hkey' : key' ∈ keys) {id : FunctionId} (hid : id ∈ sets key) :
    ρ id ∈ sets' key' ↔ id ∈ sets key' := by
  rw [h.image key' hkey', Finset.mem_image]
  constructor
  · rintro ⟨other, hother, hsame⟩
    rwa [← h.inj key' hkey' key hkey other hother id hid hsame]
  · exact fun hmem => ⟨id, hmem, rfl⟩

/-- After the same picks, equally much is left of a set and of the renamed one. -/
lemma card_left (h : Renamed ρ keys sets sets') (hearlier : ∀ s ∈ earlier, s.key ∈ keys)
    (hkey : key ∈ keys) : (sets' key \ selectedCoverage sets' earlier).card
      = (sets key \ selectedCoverage sets earlier).card := by
  have himage : sets' key \ selectedCoverage sets' earlier
      = (sets key \ selectedCoverage sets earlier).image ρ := by
    ext name
    simp only [Finset.mem_sdiff, Finset.mem_image, selectedCoverage, mem_coverage]
    constructor
    · rintro ⟨hname, hnot⟩
      rw [h.image key hkey, Finset.mem_image] at hname
      obtain ⟨id, hid, rfl⟩ := hname
      refine ⟨id, ⟨hid, ?_⟩, rfl⟩
      rintro ⟨s, hs, hids⟩
      exact hnot ⟨s, hs, (h.mem_iff hkey (hearlier s hs) hid).2 hids⟩
    · rintro ⟨id, ⟨hid, hnot⟩, rfl⟩
      refine ⟨(h.mem_iff hkey hkey hid).2 hid, ?_⟩
      rintro ⟨s, hs, hids⟩
      exact hnot ⟨s, hs, (h.mem_iff hkey (hearlier s hs) hid).1 hids⟩
  rw [himage, Finset.card_image_of_injOn]
  intro id hid id' hid' hsame
  exact h.inj key hkey key hkey id (Finset.mem_sdiff.1 hid).1 id' (Finset.mem_sdiff.1 hid').1 hsame

lemma microRank_eq (h : Renamed ρ keys sets sets') (hearlier : ∀ s ∈ earlier, s.key ∈ keys)
    (hkey : key ∈ keys) : microRank sets' earlier key = microRank sets earlier key := by
  rw [microRank, microRank, h.card_left hearlier hkey]

lemma bestMicro (h : Renamed ρ keys sets sets') (hearlier : ∀ s ∈ earlier, s.key ∈ keys)
    (hbest : BestMicro sets earlier keys s) : BestMicro sets' earlier keys s where
  known := hbest.known
  additional := by rw [h.card_left hearlier hbest.known, hbest.additional]
  positive := hbest.positive
  first := fun key hkey => by
    rw [h.microRank_eq hearlier hbest.known, h.microRank_eq hearlier hkey]
    exact hbest.first key hkey

end Renamed

/-- **Names do not matter.** -/
theorem IsSelection.rename {ρ : FunctionId → FunctionId} (h : IsSelection sets time keys picks)
    (hrenamed : Renamed ρ keys sets sets') : IsSelection sets' time keys picks where
  each := by
    refine eachPick_iff.2 fun front s back hsplit => ?_
    refine hrenamed.bestMicro (fun r hr => ?_) (eachPick_iff.1 h.each front s back hsplit)
    refine h.key_mem ?_
    rw [hsplit]
    exact List.mem_append_left _ (by simpa using hr)
  covers := by
    intro key hkey name hname
    rw [hrenamed.image key hkey, Finset.mem_image] at hname
    obtain ⟨id, hid, rfl⟩ := hname
    obtain ⟨s, hs, hids⟩ := mem_coverage.1 (h.covers key hkey hid)
    exact mem_coverage.2 ⟨s, hs, (hrenamed.mem_iff hkey (h.key_mem hs) hid).2 hids⟩
  times := h.times

/-- **Selections from renamed sets are the same**, if the times are. -/
theorem IsSelection.unique_of_renamed {ρ : FunctionId → FunctionId}
    {time' : String → Duration} (h : IsSelection sets time keys picks)
    (h' : IsSelection sets' time' keys picks') (hrenamed : Renamed ρ keys sets sets')
    (htime : ∀ key ∈ keys, time' key = time key) : picks = picks' := by
  have hsame := h.rename hrenamed
  refine IsSelection.unique ⟨hsame.each, hsame.covers, fun s hs => ?_⟩ h'
  rw [htime s.key (h.key_mem hs), h.times s hs]

/-! ## Times -/

namespace Suite

variable {suite : Suite} {overlap : SuiteOverlap} {strategy : Strategy} {exclusion : Exclusion}
  {key : String}

/-- The time that the system benchmark spends in the function of an id, if it has the function. -/
def systemTimeOf (suite : Suite) (id : FunctionId) : Duration :=
  ((suite.systemGraph.function? id).map (·.selfTime)).getD .zero

/-- **The time of a micro benchmark**: what the system benchmark spends in what it covers. -/
def timeOf (suite : Suite) (overlap : SuiteOverlap) (strategy : Strategy) (exclusion : Exclusion)
    (key : String) : Duration :=
  ⟨∑ id ∈ suite.coverOf overlap strategy exclusion key, (suite.systemTimeOf id).nanoseconds⟩

lemma systemTime_addNode (suite : Suite) (exclusion : Exclusion) (c : Candidate) (key : String)
    (id : FunctionId) :
    (c.addNode suite exclusion (suite.micros.lookup key) id).systemTime.nanoseconds
      = c.systemTime.nanoseconds +
        if (suite.functionFor? key id).any fun f => !exclusion.excludes f none
        then (suite.systemTimeOf id).nanoseconds else 0 := by
  rw [Candidate.addNode, ← functionFor?]
  cases suite.functionFor? key id with
  | none => simp
  | some f =>
    cases hexcluded : exclusion.excludes f none with
    | true => simp [hexcluded]
    | false => simp [hexcluded, systemTimeOf]

lemma systemTime_foldl_addNode (suite : Suite) (exclusion : Exclusion) (key : String)
    (ids : List FunctionId) (c : Candidate) :
    (ids.foldl (Candidate.addNode suite exclusion (suite.micros.lookup key))
        c).systemTime.nanoseconds
      = c.systemTime.nanoseconds +
        ((ids.filter fun id => (suite.functionFor? key id).any fun f =>
          !exclusion.excludes f none).map fun id => (suite.systemTimeOf id).nanoseconds).sum := by
  induction ids generalizing c with
  | nil => simp
  | cons id rest ih =>
    rw [List.foldl_cons, ih, systemTime_addNode, List.filter_cons]
    split_ifs
    · rw [List.map_cons, List.sum_cons, Nat.add_assoc]
    · rw [Nat.add_zero]

/-- A candidate has the time of its micro benchmark. -/
lemma systemTime_ofNodes {row : NodeOverlap} (hrow : overlap.micros.lookup key = some row) :
    (Candidate.ofNodes suite exclusion key (row.nodes strategy.side).keys).systemTime
      = suite.timeOf overlap strategy exclusion key := by
  have hcover : suite.coverOf overlap strategy exclusion key
      = ((row.nodes strategy.side).keys.filter fun id =>
          (suite.functionFor? key id).any fun f => !exclusion.excludes f none).toFinset := by
    rw [coverOf, hrow, List.toFinset_filter]
    rfl
  have hnodup := (row.nodes strategy.side).keys_nodup.filter fun id =>
    (suite.functionFor? key id).any fun f => !exclusion.excludes f none
  have hsum := systemTime_foldl_addNode suite exclusion key (row.nodes strategy.side).keys
    (.start key)
  rw [timeOf, hcover, List.sum_toFinset _ hnodup]
  exact congrArg Duration.mk (hsum.trans (Nat.zero_add _))

end Suite

/-- Selecting changes neither the keys nor the times of candidates. -/
lemma Candidate.time_selectAll {remaining : List Candidate}
    (h : ∀ c ∈ remaining, c.systemTime = time c.key) :
    ∀ c ∈ selectAll remaining, c.systemTime = time c.key := by
  fun_induction selectAll remaining with
  | case1 => simp
  | case2 => simp
  | case3 remaining best others hranked hsome ih =>
    have hmem : ∀ c, c ∈ remaining ↔ c = best ∨ c ∈ others := fun c => mem_iff_of_ranked hranked
    have hothers : ∀ c ∈ others.map (·.without best), c.systemTime = time c.key := by
      intro c hc
      obtain ⟨d, hd, rfl⟩ := List.mem_map.1 hc
      exact h d ((hmem d).2 (Or.inr hd))
    intro c hc
    rcases List.mem_cons.1 hc with rfl | hc
    · exact h c ((hmem c).2 (Or.inl rfl))
    · exact ih hothers c hc

/-- **What is selected is the selection**, in terms of what the micro benchmarks cover. -/
theorem Suite.isSelection_select (suite : Suite) (overlap : SuiteOverlap) (strategy : Strategy)
    (exclusion : Exclusion) :
    IsSelection (suite.coverOf overlap strategy exclusion)
      (suite.timeOf overlap strategy exclusion) overlap.micros.keys
      (suite.select overlap strategy exclusion) where
  each := (suite.select_spec overlap strategy exclusion).1
  covers := (suite.select_spec overlap strategy exclusion).2
  times := by
    intro s hs
    obtain ⟨c, hc, rfl⟩ := List.mem_map.1 hs
    refine Candidate.time_selectAll (fun d hd => ?_) c hc
    obtain ⟨⟨key, row⟩, hentry, rfl⟩ := List.mem_map.1 hd
    rw [key_ofNodes]
    exact systemTime_ofNodes (SortedMap.lookup_eq_some_iff.2 hentry)

end BenchCover
