import BenchCover.Proofs.Command.PassedOver
import BenchCover.Proofs.Profile.FileName
import BenchCover.Proofs.Report.Tables

/-!
# The overlap report of an extended suite

The key of a micro benchmark for a recommended function is made of the name of the function and of
the settings of the suite, and the report takes it apart again.

**Reports of a suite.**  The report of one suite has all its rows, unless a key is no file name:
there the report ends (`overlapReport_of_parse`, `overlapReport_of_error`).

**Extended suites.**  The keys of a suite that was loaded are file names.  So it is the names of the
recommended functions that decide.  One with an odd number of underscores at its end takes an
underscore of the separator behind it, and its key cannot be taken apart.  All others can:
`Suite.overlapReport_extend`.
-/

namespace BenchCover

/-! ## Reports of a suite -/

namespace OverlapReport

variable (projects : ProjectPrefixes) (projectOnly header : Bool) {suite : Suite}

/-- **A report with all rows of a suite**: the header if it is asked for, a row for each micro
benchmark in the order of the keys, and the row of the total. -/
structure IsComplete (projects : ProjectPrefixes) (projectOnly header : Bool) (suite : Suite)
    (report : Report) : Prop where
  fault_eq : report.fault = none
  rows_eq : ∃ rows, List.Forall₂ (IsRow projects projectOnly)
      (suite.overlap projects projectOnly).micros.entries rows ∧
    report.rows = (headerRow header columns).rows ++ rows ++
      [row projects projectOnly (suite.overlap projects projectOnly).total.microName suite.config
        (suite.overlap projects projectOnly).total]

/-- **A report that ends at a key**, in front of the row of its micro benchmark. -/
structure EndsAt (projects : ProjectPrefixes) (projectOnly header : Bool) (suite : Suite)
    (key : String) (cause : FileNameFault) (report : Report) : Prop where
  fault_eq : report.fault = some (.microName key cause)
  rows_eq : ∃ before overlap after rows,
    (suite.overlap projects projectOnly).micros.entries = before ++ (key, overlap) :: after ∧
    List.Forall₂ (IsRow projects projectOnly) before rows ∧
    report.rows = (headerRow header columns).rows ++ rows

lemma overlapReport_singleton (suite : Suite) : overlapReport projects [suite] projectOnly header
    = ⟨(headerRow header columns).rows ++ (suiteRows projects projectOnly suite).rows,
        (suiteRows projects projectOnly suite).fault⟩ := by
  rw [overlapReport, List.map_singleton, Report.concat_singleton]
  rfl

/-- **A report is complete** if all keys are file names. -/
lemma overlapReport_of_parse
    (hparse : ∀ key ∈ suite.micros.keys, ∃ name, FileName.parse key = .ok name) :
    IsComplete projects projectOnly header suite
      (overlapReport projects [suite] projectOnly header) := by
  obtain ⟨_, ⟨rows, hrows, rfl⟩, hsuite⟩ := suiteRows_of_parse projects projectOnly hparse
  rw [overlapReport_singleton, hsuite]
  refine ⟨rfl, rows, hrows, ?_⟩
  rw [(Suite.names_total suite projects projectOnly).2]
  exact (List.append_assoc _ _ _).symm

/-- **A report ends at the first key** that is no file name. -/
lemma overlapReport_of_error
    (hkeys : ∃ key ∈ suite.micros.keys, ∀ name, FileName.parse key ≠ .ok name) :
    ∃ key ∈ suite.micros.keys, ∃ cause, FileName.parse key = .error cause ∧
      EndsAt projects projectOnly header suite key cause
        (overlapReport projects [suite] projectOnly header) := by
  have hnot : ¬ KeysTold suite := by
    obtain ⟨key, hkey, hnone⟩ := hkeys
    intro htold
    obtain ⟨name, hname⟩ := htold key hkey
    exact hnone name hname
  obtain ⟨key, hkey, cause, rows, ⟨hrefused, before, overlap, after, hsplit, hrows⟩, hsuite⟩ :=
    suiteRows_of_error projects projectOnly hnot
  rw [overlapReport_singleton, hsuite]
  exact ⟨key, hkey, cause, hrefused, rfl, before, overlap, after, rows, hsplit, hrows, rfl⟩

end OverlapReport

/-! ## Extended suites -/

namespace Suite

open OverlapReport FileName

/-- What the key of a recommended function tells as the name of its micro benchmark. -/
def recommendedBase (f : Function) : String :=
  s!"{recommendedStart}_{f.id}_{f.name}"

lemma recommendedKey_eq (suite : Suite) (f : Function) : suite.recommendedKey f
    = recommendedBase f ++ settingSeparator ++ suite.config.suffix := rfl

/-- **A key that is taken apart again**: its base, and the settings of the suite. -/
lemma exists_parse_recommendedKey (suite : Suite) {f : Function}
    (hbase : Separable (recommendedBase f)) : ∃ nodeFraction edgeFraction,
      parse (suite.recommendedKey f)
        = .ok ⟨recommendedBase f, { suite.config with nodeFraction, edgeFraction }⟩ := by
  obtain ⟨nodeFraction, edgeFraction, -, -, hparse⟩ := parse_of_separable hbase suite.config
  exact ⟨nodeFraction, edgeFraction, recommendedKey_eq suite f ▸ hparse⟩

/-- **A key whose number of nodes is refused**, since it starts with an underscore. -/
lemma parse_recommendedKey_error (suite : Suite) {f : Function}
    (hbase : ¬ Separable (recommendedBase f)) : parse (suite.recommendedKey f)
      = .error (.nodeCount (suite.recommendedKey f) .invalidDigit) :=
  recommendedKey_eq suite f ▸ parse_of_not_separable hbase suite.config

/-- A key that is refused is no old one, and the base of its function is to blame. -/
lemma not_separable_of_error {tree : FileTree} {systemFile microDirectory : String}
    {config : RenderConfig} {suite : Suite} {projects : ProjectPrefixes} {overlap : SuiteOverlap}
    {count : Nat} (hload : (load tree systemFile microDirectory config).result = .ok suite)
    {key : String} (hkey : key ∈ (suite.extend projects overlap recommend count).suite.micros.keys)
    {cause : FileNameFault} (hcause : parse key = .error cause) :
    ∃ r ∈ (suite.extend projects overlap recommend count).recommended,
      ¬ Separable (recommendedBase r.function) ∧ key = suite.recommendedKey r.function := by
  rcases mem_keys_extend.1 hkey with hold | ⟨r, hr, rfl⟩
  · obtain ⟨name, hname, -⟩ := exists_parse_of_load hload hold
    rw [hcause] at hname
    cases hname
  · refine ⟨r, hr, fun hseparable => ?_, rfl⟩
    obtain ⟨nodeFraction, edgeFraction, hparse⟩ := suite.exists_parse_recommendedKey hseparable
    rw [hcause] at hparse
    cases hparse

/-- **The overlap report of an extended suite.**  Let a suite be loaded, and let it be extended by
the greedy recommendation, for any prefixes, any overlap and any count.

* Its micro benchmarks have the old keys and those of the recommended functions.
* The key of a recommended function is taken apart again, into its base, the number of nodes and the
  format, if its base ends in an even number of underscores.  Otherwise its number of nodes is
  refused.
* The report has all rows if the bases of all recommended functions are of the first kind.
* Otherwise it ends in front of the row of the first one of the second kind. -/
theorem overlapReport_extend (tree : FileTree) (systemFile microDirectory : String)
    (config : RenderConfig) (suite : Suite)
    (hload : (load tree systemFile microDirectory config).result = .ok suite)
    (projects : ProjectPrefixes) (overlap : SuiteOverlap) (count : Nat)
    (projectOnly header : Bool) :
    let extended := suite.extend projects overlap recommend count
    let report := overlapReport projects [extended.suite] projectOnly header
    (∀ key, key ∈ extended.suite.micros.keys ↔
      key ∈ suite.micros.keys ∨ ∃ r ∈ extended.recommended, suite.recommendedKey r.function = key) ∧
    (∀ r ∈ extended.recommended,
      (Separable (recommendedBase r.function) → ∃ nodeFraction edgeFraction,
        parse (suite.recommendedKey r.function)
          = .ok ⟨recommendedBase r.function, { suite.config with nodeFraction, edgeFraction }⟩) ∧
      (¬ Separable (recommendedBase r.function) →
        parse (suite.recommendedKey r.function)
          = .error (.nodeCount (suite.recommendedKey r.function) .invalidDigit))) ∧
    ((∀ r ∈ extended.recommended, Separable (recommendedBase r.function)) →
      IsComplete projects projectOnly header extended.suite report) ∧
    ((∃ r ∈ extended.recommended, ¬ Separable (recommendedBase r.function)) →
      ∃ r ∈ extended.recommended, ¬ Separable (recommendedBase r.function) ∧
        EndsAt projects projectOnly header extended.suite (suite.recommendedKey r.function)
          (.nodeCount (suite.recommendedKey r.function) .invalidDigit) report) := by
  intro extended report
  have hkeys : ∀ key, key ∈ extended.suite.micros.keys ↔ key ∈ suite.micros.keys ∨
      ∃ r ∈ extended.recommended, suite.recommendedKey r.function = key := fun _ => mem_keys_extend
  refine ⟨hkeys, fun r _ => ⟨suite.exists_parse_recommendedKey, suite.parse_recommendedKey_error⟩,
    ?_, ?_⟩
  · intro hall
    refine overlapReport_of_parse projects projectOnly header fun key hkey => ?_
    rcases (hkeys key).1 hkey with hold | ⟨r, hr, rfl⟩
    · obtain ⟨name, hname, -⟩ := exists_parse_of_load hload hold
      exact ⟨name, hname⟩
    · obtain ⟨nodeFraction, edgeFraction, hparse⟩ :=
        suite.exists_parse_recommendedKey (hall r hr)
      exact ⟨_, hparse⟩
  · rintro ⟨bad, hmem, hbase⟩
    have herror : ∃ key ∈ extended.suite.micros.keys, ∀ name, parse key ≠ .ok name := by
      refine ⟨suite.recommendedKey bad.function, (hkeys _).2 (Or.inr ⟨bad, hmem, rfl⟩), ?_⟩
      intro name hname
      cases (suite.parse_recommendedKey_error hbase).symm.trans hname
    obtain ⟨key, hkey, cause, hcause, hends⟩ :=
      overlapReport_of_error projects projectOnly header herror
    obtain ⟨r, hr, hbase, rfl⟩ := not_separable_of_error hload hkey hcause
    obtain rfl := Except.error.inj (hcause.symm.trans (suite.parse_recommendedKey_error hbase))
    exact ⟨r, hr, hbase, hends⟩

/-! ## Two functions for sorting -/

namespace Sorting

open SmallTree Dot

/-- A system benchmark whose two functions differ by an underscore at the end. -/
def document : List UInt8 :=
  (nodesText ["p/sort", "p/sort_"]).toUTF8.toList

/-- A tree without micro benchmarks. -/
def tree : FileTree :=
  smallTree document .directory

def first : Function := ⟨0, "p/sort", ⟨1000000000⟩, ⟨1000000000⟩⟩

def second : Function := ⟨1, "p/sort_", ⟨1000000000⟩, ⟨1000000000⟩⟩

def graph : CallGraph where
  functions := [first, second]
  calls := []
  ids_nodup := by decide
  ends_nodup := by decide
  caller_mem := by decide
  callee_mem := by decide

def suite : Suite :=
  ⟨SmallTree.config, "a", graph, .empty, (readSystem document).registry⟩

lemma read_system : (readSystem document).result = .ok graph := by
  have hread : (match (readSystem document).result with
      | .ok g => (g.functions, g.calls)
      | .error _ => ([], [])) = ([first, second], []) := by
    decide +kernel
  split at hread
  · next g hresult =>
    rw [hresult]
    cases g
    cases hread
    rfl
  · cases hread

lemma dotFiles_m : dotFiles tree "m" = .ok [] := by
  have hresolve : tree.resolve "m/b__1__0__0.dot"
      = .ok (.present ["m", "b__1__0__0.dot"] .directory) := resolve_b_of_get? rfl rfl rfl nofun
  have hjoin : Path.join "m" "b__1__0__0.dot" = "m/b__1__0__0.dot" := rfl
  have hfile : tree.isFile "m/b__1__0__0.dot" = false := by rw [FileTree.isFile, hresolve]
  have hnames : tree.namesAt ["m"] = ["b__1__0__0.dot"] := rfl
  have hmicro : tree.resolve "m" = .ok (.present ["m"] .directory) := holds_smallTree.micro
  rw [dotFiles_of_perm hmicro _ List.Pairwise.nil, List.map_nil]
  simp only [hnames, List.filter_cons, List.filter_nil, hjoin, hfile]
  decide

lemma load_suite :
    (Suite.load tree "s/a__1__0__0.dot" "m" SmallTree.config).result = .ok suite := by
  have hsystem : readDotFile tree "s/a__1__0__0.dot" .empty = readSystem document :=
    readDotFile_of_resolve holds_smallTree.file .empty
  have hname : FileName.parse ((Path.finalName? "s/a__1__0__0.dot").getD "")
      = .ok ⟨"a", SmallTree.config⟩ := parse_a
  rw [load_of_micros hname agrees_config (by rw [hsystem, read_system]) dotFiles_m, hsystem]
  rfl

/-! ### What is recommended -/

def covered : SuiteOverlap :=
  suite.overlap ⟨["p/"]⟩ true

lemma prospects_suite : suite.prospects ⟨["p/"]⟩ covered
    = [⟨first, some 0, .ofList [0], .empty⟩, ⟨second, some 0, .ofList [1], .empty⟩] := by
  decide +kernel

lemma recommend_one : recommend ⟨["p/"]⟩ suite covered 1 = [⟨first, 1⟩] := by
  rw [recommend, prospects_suite, Prospect.recommend, ranked_of_pairwise (by decide +kernel)]
  rfl

lemma recommend_two : recommend ⟨["p/"]⟩ suite covered 2 = [⟨first, 1⟩, ⟨second, 1⟩] := by
  rw [recommend, prospects_suite, Prospect.recommend, ranked_of_pairwise (by decide +kernel)]
  have hothers : Prospect.recommend 1 [⟨second, some 0, .ofList [1], .empty⟩] = [⟨second, 1⟩] := by
    rw [Prospect.recommend, ranked_of_pairwise (List.pairwise_singleton _ _)]
    rfl
  exact congrArg (_ :: ·) hothers

lemma separable_first : Separable (recommendedBase first) := by decide

lemma not_separable_second : ¬ Separable (recommendedBase second) := by decide

end Sorting

open Sorting in
theorem overlapReport_extend_sorting :
    let extended := suite.extend ⟨["p/"]⟩ covered recommend
    IsComplete ⟨["p/"]⟩ true true (extended 1).suite
      (overlapReport ⟨["p/"]⟩ [(extended 1).suite] true true) ∧
    EndsAt ⟨["p/"]⟩ true true (extended 2).suite (suite.recommendedKey second)
      (.nodeCount (suite.recommendedKey second) .invalidDigit)
      (overlapReport ⟨["p/"]⟩ [(extended 2).suite] true true) := by
  intro extended
  have hone : (extended 1).recommended = [⟨first, 1⟩] := recommend_one
  have htwo : (extended 2).recommended = [⟨first, 1⟩, ⟨second, 1⟩] := recommend_two
  obtain ⟨-, -, hcomplete, -⟩ := overlapReport_extend tree _ _ _ suite load_suite ⟨["p/"]⟩ covered 1
    true true
  obtain ⟨-, -, -, hends⟩ := overlapReport_extend tree _ _ _ suite load_suite ⟨["p/"]⟩ covered 2
    true true
  refine ⟨hcomplete ?_, ?_⟩
  · rw [hone]
    simpa using separable_first
  · obtain ⟨r, hr, hbase, hreport⟩ := hends ⟨⟨second, 1⟩, by rw [htwo]; simp, not_separable_second⟩
    rw [htwo] at hr
    obtain rfl | hr := List.mem_cons.1 hr
    · exact absurd separable_first hbase
    · obtain rfl := List.mem_singleton.1 hr
      exact hreport

open Sorting in
/-- **A key that is made for a recommended function may be no file name**, and then the report of
the extended suite ends early. -/
theorem overlapReport_sorting :
    (Suite.load tree "s/a__1__0__0.dot" "m" SmallTree.config).result = .ok suite ∧
    let extended := suite.extend ⟨["p/"]⟩ (suite.overlap ⟨["p/"]⟩ true) recommend 2
    ∃ r ∈ extended.recommended, (∀ name, parse (suite.recommendedKey r.function) ≠ .ok name) ∧
      (overlapReport ⟨["p/"]⟩ [extended.suite] true true).fault ≠ none := by
  refine ⟨load_suite, ?_⟩
  intro extended
  have htwo : extended.recommended = [⟨first, 1⟩, ⟨second, 1⟩] := recommend_two
  have hmem : ⟨second, 1⟩ ∈ extended.recommended := by
    rw [htwo]
    simp
  have hparse : ∀ name, parse (suite.recommendedKey second) ≠ .ok name := by
    intro name hname
    cases (suite.parse_recommendedKey_error not_separable_second).symm.trans hname
  obtain ⟨key, -, cause, -, hends⟩ := overlapReport_of_error ⟨["p/"]⟩ true true
    ⟨suite.recommendedKey second, mem_keys_extend.2 (Or.inr ⟨_, hmem, rfl⟩), hparse⟩
  refine ⟨_, hmem, hparse, ?_⟩
  rw [hends.fault_eq]
  exact Option.some_ne_none _

end Suite

end BenchCover
