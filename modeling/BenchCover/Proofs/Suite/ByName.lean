import BenchCover.Proofs.Suite.Alike
import BenchCover.Proofs.Suite.Counts

/-!
# Analyses by name

Two suites may have the same functions and the same calls by name, but other ids, and functions and
calls in another order.  `Suite.SameByName` says so, and here the three analyses are shown to tell
the same of such suites.

**Overlaps.**  Read by name, the rows and the totals have the same functions with the same counts
(`SameByName.sameByName_overlap`).

**Selections** are the same list, which holds for all alike suites.

**Recommendations** are of the functions with the same names, with the same numbers and in the same
order (`SameByName.recommend`).  What a function newly reaches is given by names
(`BuiltWith.spells_newlyReached`) and so is its depth, so functions of the same name have the same
rank after recommendations of the same names (`SameByName.functionRank_eq`).  As ranks end in names,
the best functions on both sides have the same name.
-/

namespace BenchCover

variable {registry registry' : Registry}

/-- What picks cover together, by name. -/
lemma Registry.spells_coverage {α : Type} [DecidableEq α] {sets : α → Finset FunctionId}
    {p : α → String → Prop} {picks : List α} (h : ∀ a ∈ picks, registry.Spells (sets a) (p a)) :
    registry.Spells (coverage sets picks) fun name => ∃ a ∈ picks, p a name where
  mem_iff := by
    intro id
    rw [mem_coverage]
    constructor
    · rintro ⟨a, ha, hid⟩
      obtain ⟨name, hname, hp⟩ := ((h a ha).mem_iff id).1 hid
      exact ⟨name, hname, a, ha, hp⟩
    · rintro ⟨name, hname, a, ha, hp⟩
      exact ⟨a, ha, (h a ha).mem_of_name hname hp⟩
  known := by
    rintro name ⟨a, ha, hp⟩
    exact (h a ha).known name hp

/-- **Rows that tell the same by name**: each side is read as the same counts of names. -/
structure NodeOverlap.SameByName (registry registry' : Registry) (a b : NodeOverlap) : Prop
    extends SameCounts a b where
  named : ∀ side, ∃ byName, (a.nodes side).named registry = .ok byName ∧
    (b.nodes side).named registry' = .ok byName

/-- **Overlaps that tell the same by name**, row by row and in total. -/
structure SuiteOverlap.SameByName (registry registry' : Registry) (a b : SuiteOverlap) : Prop where
  system : a.system = b.system
  micros : ∀ key, Option.Rel (NodeOverlap.SameByName registry registry') (a.micros.lookup key)
    (b.micros.lookup key)
  total : a.total.SameByName registry registry' b.total

/-- **Recommendations that tell the same by name.** -/
structure Recommended.SameByName (r r' : Recommended) : Prop where
  name : r.function.name = r'.function.name
  selfTime : r.function.selfTime = r'.function.selfTime
  totalTime : r.function.totalTime = r'.function.totalTime
  additional : r.additional = r'.additional

namespace Suite

variable {suite suite' : Suite} {projects : ProjectPrefixes} {projectOnly project : Bool}
  {f f' h : Function} {earlier earlier' : List Recommended} {r r' : Recommended}

/-! ## What functions newly reach -/

/-- The names of the functions that some micro benchmark shares. -/
def SharedName (suite : Suite) (projects : ProjectPrefixes) (projectOnly : Bool) (name : String) :
    Prop :=
  ∃ key micro, suite.micros.lookup key = some micro ∧
    OverlapSide.shared.names projects projectOnly suite.systemGraph micro name

/-- **What is newly reached, by name**: the names of the functions of one kind that the function of
a name reaches and no micro benchmark shares. -/
def NewName (suite : Suite) (projects : ProjectPrefixes) (projectOnly project : Bool)
    (start name : String) : Prop :=
  (name ∈ suite.systemGraph.names ∧ projects.covers name = project ∧
    ∃ n, suite.systemGraph.NamedSteps start n name) ∧ ¬ suite.SharedName projects projectOnly name

namespace BuiltWith

/-- **What a function newly reaches is given by names.** -/
theorem spells_newlyReached (h : suite.BuiltWith registry) (projects : ProjectPrefixes)
    (projectOnly project : Bool) (hf : f ∈ suite.systemGraph.functions) :
    registry.Spells
      (suite.newlyReached projects (suite.overlap projects projectOnly) project f)
      (suite.NewName projects projectOnly project f.name) := by
  refine Registry.Spells.sdiff ⟨fun id => ?_, ?_⟩ (h.spells_total projects projectOnly .shared)
  · rw [mem_reached_iff]
    constructor
    · rintro ⟨k, hk, rfl, hcovers, hreaches⟩
      exact ⟨k.name, h.system k hk, List.mem_map_of_mem hk, hcovers,
        (h.system.reaches_iff hf hk).1 hreaches⟩
    · rintro ⟨name, hname, hmem, hcovers, hsteps⟩
      obtain ⟨k, hk, rfl⟩ := CallGraph.mem_names_iff.1 hmem
      exact ⟨k, hk, Registry.id_unique (h.system k hk) hname, hcovers,
        (h.system.reaches_iff hf hk).2 hsteps⟩
  · rintro name ⟨hmem, -, -⟩
    obtain ⟨k, hk, rfl⟩ := CallGraph.mem_names_iff.1 hmem
    exact ⟨k.id, h.system k hk⟩

/-- What recommended functions newly reach together, by name. -/
lemma spells_taken (h : suite.BuiltWith registry) (projects : ProjectPrefixes)
    (projectOnly project : Bool) (hknown : ∀ r ∈ earlier, r.function ∈ suite.systemGraph.functions) :
    registry.Spells
      (suite.taken projects (suite.overlap projects projectOnly) earlier project)
      fun name => ∃ r ∈ earlier, suite.NewName projects projectOnly project r.function.name name :=
  Registry.spells_coverage fun r hr => h.spells_newlyReached projects projectOnly project (hknown r hr)

/-- Whether a function may be recommended is told by its name. -/
lemma mayRecommend_iff (h : suite.BuiltWith registry) (hf : f ∈ suite.systemGraph.functions) :
    suite.MayRecommend projects (suite.overlap projects projectOnly) f ↔
      projects.covers f.name = true ∧ ¬ suite.SharedName projects projectOnly f.name := by
  have hshared := (h.spells_total projects projectOnly .shared).mem_iff_of_name (h.system f hf)
  constructor
  · intro hmay
    exact ⟨hmay.covers, fun hname => hmay.uncovered (hshared.2 hname)⟩
  · rintro ⟨hcovers, huncovered⟩
    exact ⟨hf, hcovers, fun hid => huncovered (hshared.1 hid)⟩

end BuiltWith

/-! ## Suites with the same functions and calls -/

/-- **Suites with the same functions and calls by name.**  Each was read with a registry of its own,
so that ids differ, and so may the order of functions and calls.  Of the calls, only those of the
system count. -/
structure SameByName (suite suite' : Suite) : Prop extends Alike suite suite' where
  calls : suite.systemGraph.SameCalls suite'.systemGraph

namespace Alike

lemma sharedName_iff (h : suite.Alike suite') (projects : ProjectPrefixes) (projectOnly : Bool)
    (name : String) :
    suite.SharedName projects projectOnly name ↔ suite'.SharedName projects projectOnly name :=
  h.exists_names_iff projects projectOnly .shared name

/-- The totals count functions of the same name equally often. -/
lemma count_total_eq (h : suite.Alike suite') (projects : ProjectPrefixes) (projectOnly : Bool)
    (side : OverlapSide) {id id' : FunctionId} {name : String}
    (hname : suite.registry.name id = .ok name) (hname' : suite'.registry.name id' = .ok name) :
    ((suite.overlap projects projectOnly).total.nodes side).count id
      = ((suite'.overlap projects projectOnly).total.nodes side).count id' := by
  rw [count_total, count_total]
  have hrows : suite.micros.entries.map (fun entry =>
        decide (id ∈ ((NodeOverlap.between projects projectOnly suite.system entry.1
          suite.systemGraph entry.2).nodes side).keys))
      = suite'.micros.entries.map fun entry =>
        decide (id' ∈ ((NodeOverlap.between projects projectOnly suite'.system entry.1
          suite'.systemGraph entry.2).nodes side).keys) := by
    refine SortedMap.map_entries_congr h.keys_eq fun key micro micro' hmicro hmicro' => ?_
    have hspells := spells_between h.built.system (h.built.micros key micro hmicro) projects
      projectOnly suite.system key side
    have hspells' := spells_between h.built'.system (h.built'.micros key micro' hmicro') projects
      projectOnly suite'.system key side
    rw [decide_eq_decide, ← SortedMap.mem_keySet, ← SortedMap.mem_keySet,
      hspells.mem_iff_of_name hname, hspells'.mem_iff_of_name hname']
    exact side.names_congr projects projectOnly h.systemGraph (h.sameFunctions hmicro hmicro') name
  have hcount := congrArg (List.countP fun counted : Bool => counted) hrows
  rw [List.countP_map, List.countP_map] at hcount
  exact hcount

/-- **The overlaps of alike suites are the same by name.** -/
theorem sameByName_overlap (h : suite.Alike suite') (projects : ProjectPrefixes)
    (projectOnly : Bool) :
    (suite.overlap projects projectOnly).SameByName suite.registry suite'.registry
      (suite'.overlap projects projectOnly) where
  system := h.system
  micros := by
    intro key
    rw [lookup_overlap, lookup_overlap]
    have hrel := h.micros key
    cases hmicro : suite.micros.lookup key with
    | none =>
      rw [hmicro] at hrel
      cases hmicro' : suite'.micros.lookup key with
      | none => exact .none
      | some micro' =>
        rw [hmicro'] at hrel
        cases hrel
    | some micro =>
      obtain ⟨micro', hmicro', hsame⟩ := h.exists_micro hmicro
      rw [hmicro']
      refine .some ⟨h.sameCounts_row projects projectOnly hmicro hmicro', fun side => ?_⟩
      have hspells := spells_between h.built.system (h.built.micros key micro hmicro) projects
        projectOnly suite.system key side
      have hspells' := (spells_between h.built'.system (h.built'.micros key micro' hmicro') projects
        projectOnly suite'.system key side).congr fun name =>
          (side.names_congr projects projectOnly h.systemGraph hsame name).symm
      refine NodeCounts.exists_named_of_spells hspells hspells' fun id id' name hp hname hname' => ?_
      rw [NodeOverlap.count_between (SortedMap.mem_keySet.1 (hspells.mem_of_name hname hp)),
        NodeOverlap.count_between (SortedMap.mem_keySet.1 (hspells'.mem_of_name hname' hp))]
  total := by
    refine ⟨h.sameCounts_total projects projectOnly, fun side => ?_⟩
    exact NodeCounts.exists_named_of_spells (h.built.spells_total projects projectOnly side)
      ((h.built'.spells_total projects projectOnly side).congr fun name =>
        (h.exists_names_iff projects projectOnly side name).symm)
      fun id id' name _ hname hname' => h.count_total_eq projects projectOnly side hname hname'

end Alike

namespace SameByName

lemma symm (h : suite.SameByName suite') : suite'.SameByName suite where
  toAlike := h.toAlike.symm
  calls := h.calls.symm

/-- Functions of the systems with the same name are the same but for their ids. -/
lemma exists_function (h : suite.SameByName suite') (hf : f ∈ suite.systemGraph.functions) :
    ∃ f' ∈ suite'.systemGraph.functions, f.name = f'.name :=
  (h.systemGraph.exists_mem hf).imp fun _ hf' => ⟨hf'.1, hf'.2.1.symm⟩

lemma times_eq (h : suite.SameByName suite') (hf : f ∈ suite.systemGraph.functions)
    (hf' : f' ∈ suite'.systemGraph.functions) (hsame : f.name = f'.name) :
    f.selfTime = f'.selfTime ∧ f.totalTime = f'.totalTime := by
  obtain ⟨k, hk, hlabel⟩ := List.mem_map.1 ((h.systemGraph _).1 (List.mem_map_of_mem hf))
  obtain ⟨hname, hself, htotal⟩ := by simpa only [Prod.mk.injEq] using hlabel
  obtain rfl := h.built'.system.eq_of_name_eq hk hf' (hname.trans hsame)
  exact ⟨hself.symm, htotal.symm⟩

lemma newName_iff (h : suite.SameByName suite') (start name : String) :
    suite.NewName projects projectOnly project start name ↔
      suite'.NewName projects projectOnly project start name := by
  simp only [NewName, h.systemGraph.mem_names_iff, h.calls.namedSteps_iff,
    h.sharedName_iff projects projectOnly name]

lemma mayRecommend (h : suite.SameByName suite') (hf' : f' ∈ suite'.systemGraph.functions)
    (hsame : f.name = f'.name)
    (hmay : suite.MayRecommend projects (suite.overlap projects projectOnly) f) :
    suite'.MayRecommend projects (suite'.overlap projects projectOnly) f' := by
  rw [h.built'.mayRecommend_iff hf', ← hsame, ← h.sharedName_iff]
  exact (h.built.mayRecommend_iff hmay.mem).1 hmay

/-! ### Ranks -/

/-- **Recommendations of functions of the systems with the same name.** -/
structure SamePick (suite suite' : Suite) (r r' : Recommended) : Prop where
  mem : r.function ∈ suite.systemGraph.functions
  mem' : r'.function ∈ suite'.systemGraph.functions
  name : r.function.name = r'.function.name
  additional : r.additional = r'.additional

lemma SamePick.symm (h : SamePick suite suite' r r') : SamePick suite' suite r' r :=
  ⟨h.mem', h.mem, h.name.symm, h.additional.symm⟩

lemma SamePick.all_symm (h : List.Forall₂ (SamePick suite suite') earlier earlier') :
    List.Forall₂ (SamePick suite' suite) earlier' earlier :=
  (h.imp fun _ _ hpick => hpick.symm).flip

lemma SamePick.exists_of_mem (h : List.Forall₂ (SamePick suite suite') earlier earlier')
    (hr : r ∈ earlier) : ∃ r' ∈ earlier', SamePick suite suite' r r' := by
  induction h with
  | nil => cases hr
  | cons hpick _ ih =>
    rcases List.mem_cons.1 hr with rfl | hr
    · exact ⟨_, List.mem_cons_self, hpick⟩
    · obtain ⟨r', hr', hpick'⟩ := ih hr
      exact ⟨r', List.mem_cons_of_mem _ hr', hpick'⟩

/-- What recommendations of the same names newly reach together is the same by name. -/
lemma exists_newName_iff (h : suite.SameByName suite')
    (hearlier : List.Forall₂ (SamePick suite suite') earlier earlier') (name : String) :
    (∃ r ∈ earlier, suite.NewName projects projectOnly project r.function.name name) ↔
      ∃ r' ∈ earlier', suite'.NewName projects projectOnly project r'.function.name name := by
  have hforward : ∀ {suite suite' : Suite} {earlier earlier' : List Recommended},
      suite.SameByName suite' → List.Forall₂ (SamePick suite suite') earlier earlier' →
      (∃ r ∈ earlier, suite.NewName projects projectOnly project r.function.name name) →
      ∃ r' ∈ earlier', suite'.NewName projects projectOnly project r'.function.name name := by
    rintro suite suite' earlier earlier' h hearlier ⟨r, hr, hnew⟩
    obtain ⟨r', hr', hpick⟩ := SamePick.exists_of_mem hearlier hr
    exact ⟨r', hr', (h.newName_iff _ _).1 (hpick.name ▸ hnew)⟩
  exact ⟨hforward h hearlier, hforward h.symm (SamePick.all_symm hearlier)⟩

/-- What is newly reached, less what was recommended before, has the same size. -/
lemma card_left_eq (h : suite.SameByName suite')
    (hearlier : List.Forall₂ (SamePick suite suite') earlier earlier')
    (hf : f ∈ suite.systemGraph.functions) (hf' : f' ∈ suite'.systemGraph.functions)
    (hsame : f.name = f'.name) (project : Bool) :
    (suite.newlyReached projects (suite.overlap projects projectOnly) project f \
        suite.taken projects (suite.overlap projects projectOnly) earlier project).card
      = (suite'.newlyReached projects (suite'.overlap projects projectOnly) project f' \
        suite'.taken projects (suite'.overlap projects projectOnly) earlier' project).card := by
  have hleft : ∀ {suite suite' : Suite} {earlier earlier' : List Recommended} {f : Function},
      suite.SameByName suite' → List.Forall₂ (SamePick suite suite') earlier earlier' →
      f ∈ suite.systemGraph.functions → suite.registry.Spells
        (suite.newlyReached projects (suite.overlap projects projectOnly) project f \
          suite.taken projects (suite.overlap projects projectOnly) earlier project)
        fun name => suite.NewName projects projectOnly project f.name name ∧
          ¬ ∃ r ∈ earlier, suite.NewName projects projectOnly project r.function.name name := by
    intro suite suite' earlier earlier' f h hearlier hf
    refine (h.built.spells_newlyReached projects projectOnly project hf).sdiff
      (h.built.spells_taken projects projectOnly project fun r hr => ?_)
    obtain ⟨_, _, hpick⟩ := SamePick.exists_of_mem hearlier hr
    exact hpick.mem
  refine (hleft h hearlier hf).card_eq
    ((hleft h.symm (SamePick.all_symm hearlier) hf').congr fun name => ?_)
  rw [hsame, h.newName_iff, h.exists_newName_iff hearlier]

/-- **Functions of the same name have the same rank.** -/
theorem functionRank_eq (h : suite.SameByName suite')
    (hearlier : List.Forall₂ (SamePick suite suite') earlier earlier')
    (hf : f ∈ suite.systemGraph.functions) (hf' : f' ∈ suite'.systemGraph.functions)
    (hsame : f.name = f'.name) :
    suite.functionRank projects (suite.overlap projects projectOnly) earlier f
      = suite'.functionRank projects (suite'.overlap projects projectOnly) earlier' f' := by
  have hdepth := h.calls.depth_eq (fun _ => h.systemGraph.mem_names_iff) h.built.system
    h.built'.system hf hf' hsame
  rw [functionRank, functionRank, h.card_left_eq hearlier hf hf' hsame true,
    h.card_left_eq hearlier hf hf' hsame false, hdepth, hsame]

/-! ### Runs -/

/-- **Best functions have the same name**, and they add as much. -/
lemma samePick (h : suite.SameByName suite')
    (hearlier : List.Forall₂ (SamePick suite suite') earlier earlier')
    (hbest : suite.BestFunction projects (suite.overlap projects projectOnly) earlier r)
    (hbest' : suite'.BestFunction projects (suite'.overlap projects projectOnly) earlier' r') :
    SamePick suite suite' r r' := by
  obtain ⟨f', hf', hsame'⟩ := h.exists_function hbest.known.mem
  obtain ⟨f, hf, hsame⟩ := h.symm.exists_function hbest'.known.mem
  have hrank : suite.functionRank projects (suite.overlap projects projectOnly) earlier r.function
      = suite'.functionRank projects (suite'.overlap projects projectOnly) earlier' r'.function := by
    -- each is at least as good as the function with the name of the other one
    refine le_antisymm ?_ ?_
    · rw [← h.functionRank_eq hearlier hf hbest'.known.mem hsame.symm]
      exact hbest.first f (h.symm.mayRecommend hf hsame hbest'.known)
    · rw [h.functionRank_eq hearlier hbest.known.mem hf' hsame']
      exact hbest'.first f' (h.mayRecommend hf' hsame' hbest.known)
  have hname : r.function.name = r'.function.name :=
    congrArg (fun rank => (ofLex (ofLex (ofLex rank).2).2).2) hrank
  refine ⟨hbest.known.mem, hbest'.known.mem, hname, ?_⟩
  rw [hbest.additional, hbest'.additional]
  exact h.card_left_eq hearlier hbest.known.mem hbest'.known.mem hname true

/-- Where nothing is left to add on one side, no function is best on the other. -/
lemma not_bestFunction (h : suite.SameByName suite')
    (hearlier : List.Forall₂ (SamePick suite suite') earlier earlier')
    (hspent : ∀ f, suite.MayRecommend projects (suite.overlap projects projectOnly) f →
      suite.newlyReached projects (suite.overlap projects projectOnly) true f
        ⊆ suite.taken projects (suite.overlap projects projectOnly) earlier true) :
    ¬ suite'.BestFunction projects (suite'.overlap projects projectOnly) earlier' r' := by
  intro hbest'
  obtain ⟨f, hf, hsame⟩ := h.symm.exists_function hbest'.known.mem
  have hnone := hspent f (h.symm.mayRecommend hf hsame hbest'.known)
  have hpositive := hbest'.positive
  rw [hbest'.additional, ← h.card_left_eq hearlier hf hbest'.known.mem hsame.symm true,
    Finset.sdiff_eq_empty_iff_subset.2 hnone, Finset.card_empty] at hpositive
  exact absurd hpositive (Nat.lt_irrefl 0)

/-- **Runs of best functions go side by side**, if each ends at the count or when nothing is left
to add. -/
lemma samePicks (h : suite.SameByName suite') {picks picks' : List Recommended} {count : ℕ}
    (hearlier : List.Forall₂ (SamePick suite suite') earlier earlier')
    (hpicks : EachPick (suite.BestFunction projects (suite.overlap projects projectOnly)) earlier
      picks)
    (hpicks' : EachPick (suite'.BestFunction projects (suite'.overlap projects projectOnly)) earlier'
      picks')
    (hlength : picks.length ≤ count) (hlength' : picks'.length ≤ count)
    (hspent : picks.length < count →
      ∀ f, suite.MayRecommend projects (suite.overlap projects projectOnly) f →
        suite.newlyReached projects (suite.overlap projects projectOnly) true f
          ⊆ suite.taken projects (suite.overlap projects projectOnly) (earlier ++ picks) true)
    (hspent' : picks'.length < count →
      ∀ f, suite'.MayRecommend projects (suite'.overlap projects projectOnly) f →
        suite'.newlyReached projects (suite'.overlap projects projectOnly) true f
          ⊆ suite'.taken projects (suite'.overlap projects projectOnly) (earlier' ++ picks') true) :
    List.Forall₂ (SamePick suite suite') picks picks' := by
  induction picks generalizing earlier earlier' picks' count with
  | nil =>
    cases picks' with
    | nil => exact .nil
    | cons r' later' =>
      rw [List.append_nil] at hspent
      have hleft := hspent (Nat.lt_of_lt_of_le (Nat.succ_pos _) hlength')
      exact absurd hpicks'.1 (h.not_bestFunction hearlier hleft)
  | cons r later ih =>
    cases picks' with
    | nil =>
      rw [List.append_nil] at hspent'
      have hleft := hspent' (Nat.lt_of_lt_of_le (Nat.succ_pos _) hlength)
      exact absurd hpicks.1 (h.symm.not_bestFunction (SamePick.all_symm hearlier) hleft)
    | cons r' later' =>
      cases count with
      | zero => exact absurd hlength (Nat.not_succ_le_zero _)
      | succ count =>
        have hpick := h.samePick hearlier hpicks.1 hpicks'.1
        refine .cons hpick (ih (List.rel_append hearlier (.cons hpick .nil)) hpicks.2 hpicks'.2
          (Nat.le_of_succ_le_succ hlength) (Nat.le_of_succ_le_succ hlength') (fun hlt => ?_)
          fun hlt => ?_)
        · simpa using hspent (Nat.succ_lt_succ hlt)
        · simpa using hspent' (Nat.succ_lt_succ hlt)

/-- **The same functions are recommended by name**, in the same order and with the same numbers. -/
theorem recommend (h : suite.SameByName suite') (projects : ProjectPrefixes) (projectOnly : Bool)
    (count : Nat) :
    List.Forall₂ Recommended.SameByName
      (recommend projects suite (suite.overlap projects projectOnly) count)
      (recommend projects suite' (suite'.overlap projects projectOnly) count) := by
  obtain ⟨hlength, hpicks, hspent⟩ :=
    suite.recommend_spec projects (suite.overlap projects projectOnly) count
  obtain ⟨hlength', hpicks', hspent'⟩ :=
    suite'.recommend_spec projects (suite'.overlap projects projectOnly) count
  refine (h.samePicks .nil hpicks hpicks' hlength hlength' hspent hspent').imp fun r r' hpick => ?_
  obtain ⟨hself, htotal⟩ := h.times_eq hpick.mem hpick.mem' hpick.name
  exact ⟨hpick.name, hself, htotal, hpick.additional⟩

end SameByName

/-- **Ids and the order of insertion are immaterial.**  Suites with the same functions and calls by
name have overlaps that are the same by name, row by row and in total, and with both strategies the
same selection; and for every count the functions of the same names are recommended, in the same
order and with the same numbers. -/
theorem analyses_by_name (suite suite' : Suite) (h : suite.SameByName suite')
    (projects : ProjectPrefixes) (projectOnly : Bool) (strategy : Strategy) (count : Nat) :
    (suite.overlap projects projectOnly).SameByName suite.registry suite'.registry
        (suite'.overlap projects projectOnly) ∧
      suite.select (suite.overlap projects projectOnly) strategy
          (Exclusion.ofProjects projects).negate
        = suite'.select (suite'.overlap projects projectOnly) strategy
            (Exclusion.ofProjects projects).negate ∧
      List.Forall₂ Recommended.SameByName
        (recommend projects suite (suite.overlap projects projectOnly) count)
        (recommend projects suite' (suite'.overlap projects projectOnly) count) :=
  ⟨h.sameByName_overlap projects projectOnly, h.select_eq projects projectOnly strategy,
    h.recommend projects projectOnly count⟩

/-- A loader that copies and scans, with a micro benchmark of the scan. -/
def loading : Suite where
  config := ⟨.dot, 100, .zero false, .zero false⟩
  system := "system"
  systemGraph :=
    { functions := [⟨0, "p/load", ⟨1⟩, ⟨9⟩⟩, ⟨1, "lib/copy", ⟨2⟩, ⟨2⟩⟩, ⟨2, "p/scan", ⟨3⟩, ⟨6⟩⟩]
      calls := [⟨0, 1, ⟨2⟩⟩, ⟨0, 2, ⟨6⟩⟩]
      ids_nodup := by decide
      ends_nodup := by decide
      caller_mem := by decide
      callee_mem := by decide }
  micros := SortedMap.empty.insert "scans" (CallGraph.empty.addFunction ⟨2, "p/scan", ⟨4⟩, ⟨4⟩⟩)
  registry := (Registry.empty.registerAll ["p/load", "lib/copy", "p/scan"]).1

/-- The same, read in another order. -/
def renumbered : Suite where
  config := ⟨.dot, 100, .zero false, .zero false⟩
  system := "system"
  systemGraph :=
    { functions := [⟨1, "p/scan", ⟨3⟩, ⟨6⟩⟩, ⟨2, "p/load", ⟨1⟩, ⟨9⟩⟩, ⟨0, "lib/copy", ⟨2⟩, ⟨2⟩⟩]
      calls := [⟨2, 1, ⟨6⟩⟩, ⟨2, 0, ⟨2⟩⟩]
      ids_nodup := by decide
      ends_nodup := by decide
      caller_mem := by decide
      callee_mem := by decide }
  micros := SortedMap.empty.insert "scans" (CallGraph.empty.addFunction ⟨1, "p/scan", ⟨4⟩, ⟨4⟩⟩)
  registry := (Registry.empty.registerAll ["lib/copy", "p/scan", "p/load"]).1

/-- A suite with a single micro benchmark is built with a registry that names both graphs. -/
lemma builtWith_of_single {key : String} {micro : CallGraph}
    (hmicros : suite.micros = SortedMap.empty.insert key micro)
    (hsystem : suite.systemGraph.NamedBy registry) (hmicro : micro.NamedBy registry) :
    suite.BuiltWith registry where
  system := hsystem
  micros := by
    intro other g hg
    rw [hmicros, SortedMap.lookup_insert] at hg
    split_ifs at hg with hsame
    · exact Option.some.inj hg ▸ hmicro
    · cases hg

lemma sameByName_loading : loading.SameByName renumbered where
  config := rfl
  system := rfl
  systemGraph := fun _ => List.Perm.mem_iff (by decide)
  micros := by
    intro key
    rw [loading, renumbered]
    simp only [SortedMap.lookup_insert]
    split_ifs
    · exact .some fun _ => Iff.rfl
    · exact .none
  built := builtWith_of_single rfl (by unfold CallGraph.NamedBy; decide)
    (by unfold CallGraph.NamedBy; decide)
  built' := builtWith_of_single rfl (by unfold CallGraph.NamedBy; decide)
    (by unfold CallGraph.NamedBy; decide)
  calls := by
    intro a b
    simp [CallGraph.CallsNamed, CallGraph.mem_callees, loading, renumbered, Call.ends, or_comm]

theorem analyses_by_name_loading :
    loading.SameByName renumbered ∧
      loading.registry.lookup? "p/load" ≠ renumbered.registry.lookup? "p/load" ∧
      (loading.overlap ⟨["p/"]⟩ true).SameByName loading.registry renumbered.registry
        (renumbered.overlap ⟨["p/"]⟩ true) ∧
      loading.select (loading.overlap ⟨["p/"]⟩ true) .greedyMicro
          (Exclusion.ofProjects ⟨["p/"]⟩).negate
        = renumbered.select (renumbered.overlap ⟨["p/"]⟩ true) .greedyMicro
            (Exclusion.ofProjects ⟨["p/"]⟩).negate ∧
      List.Forall₂ Recommended.SameByName
        (Suite.recommend ⟨["p/"]⟩ loading (loading.overlap ⟨["p/"]⟩ true) 2)
        (Suite.recommend ⟨["p/"]⟩ renumbered (renumbered.overlap ⟨["p/"]⟩ true) 2) :=
  ⟨sameByName_loading, by decide,
    analyses_by_name loading renumbered sameByName_loading ⟨["p/"]⟩ true .greedyMicro 2⟩

end Suite

end BenchCover
