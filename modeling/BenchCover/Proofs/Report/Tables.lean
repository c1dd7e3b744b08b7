import BenchCover.Proofs.Distinct
import BenchCover.Proofs.Report.Reading
import BenchCover.Proofs.Suite.Overlap
import BenchCover.Report.Minimization
import BenchCover.Report.Overlap
import BenchCover.Report.Recommendation

/-!
# What reports say

The tables that the reports of suites come to, and that they are read back as these tables.

**Overlaps.**  A suite has a row for each of its micro benchmarks, in the order of the keys, and one
for the total, unless a key is no file name: there the report ends.  `suiteRows_of_parse` and
`suiteRows_of_error` say so for one suite; `overlapReport_of_parse_all` and
`overlapReport_of_first_error` say it for all of them.

**Selections and recommendations.**  The other two reports cannot fail.  Their rows tell how many
rows their suite has, and those of a selection are counted from one.

**Reading.**  No row is empty.  So whatever is in the fields, a report is read back as its rows
(`Report.readRows_text`), and two reports, one behind the other, as the rows of both.
`reports_read_back` has all of it.
-/

namespace BenchCover

/-- A list is cut in front of the first element that does not have a property. -/
lemma exists_first_not {α : Type} {p : α → Prop} {l : List α} (h : ∃ a ∈ l, ¬ p a) :
    ∃ before a after, l = before ++ a :: after ∧ (∀ b ∈ before, p b) ∧ ¬ p a := by
  classical
  obtain ⟨bad, hmem, hbad⟩ := h
  have hfind : (l.find? fun a => !decide (p a)).isSome :=
    List.find?_isSome.2 ⟨bad, hmem, by simpa using hbad⟩
  obtain ⟨a, ha⟩ := Option.isSome_iff_exists.1 hfind
  obtain ⟨hfirst, before, after, rfl, hbefore⟩ := List.find?_eq_some_iff_append.1 ha
  exact ⟨before, a, after, rfl, by simpa using hbefore, by simpa using hfirst⟩

/-! ## Reports and rows -/

namespace Report

lemma append_ofRows_nil (report : Report) : report.append (.ofRows []) = report := by
  obtain ⟨rows, fault⟩ := report
  cases fault with
  | none => simp [append, ofRows]
  | some fault => rfl

lemma concat_singleton (report : Report) : concat [report] = report :=
  append_ofRows_nil report

lemma append_of_none {first : Report} (h : first.fault = none) (second : Report) :
    first.append second = ⟨first.rows ++ second.rows, second.fault⟩ := by
  rw [append, h]

lemma fault_append {first second : Report} (h : (first.append second).fault = none) :
    first.fault = none ∧ second.fault = none := by
  cases hfault : first.fault with
  | some cause => simp [append, hfault] at h
  | none =>
    rw [append_of_none hfault] at h
    exact ⟨rfl, h⟩

/-- Reports without a fault stand in front of what follows them. -/
lemma concat_ofRows_append (tables : List (List Row)) (later : List Report) :
    concat (tables.map ofRows ++ later)
      = ⟨tables.flatten ++ (concat later).rows, (concat later).fault⟩ := by
  induction tables with
  | nil => rfl
  | cons table tables ih =>
    rw [List.map_cons, List.cons_append, concat, List.foldr_cons, ← concat, ih, List.flatten_cons,
      List.append_assoc]
    rfl

/-- **A report is read back** as its rows. -/
lemma readRows_text {report : Report} (hrows : ∀ row ∈ report.rows, row ≠ []) :
    Reader.readRows report.text.toList = some report.rows := by
  rw [text, String.toList_ofList]
  exact Reader.readRows_encode hrows

/-- **Two reports, one behind the other**, are read back as the rows of both. -/
lemma readRows_text_append {first second : Report} (hfirst : ∀ row ∈ first.rows, row ≠ [])
    (hsecond : ∀ row ∈ second.rows, row ≠ []) :
    Reader.readRows (first.text ++ second.text).toList = some (first.rows ++ second.rows) := by
  rw [text, text, String.toList_append, String.toList_ofList, String.toList_ofList,
    ← List.flatMap_append]
  refine Reader.readRows_encode fun row hrow => ?_
  rcases List.mem_append.1 hrow with hrow | hrow
  · exact hfirst row hrow
  · exact hsecond row hrow

end Report

lemma mem_headerRow {header : Bool} {columns row : Row}
    (hrow : row ∈ (headerRow header columns).rows) : row = columns := by
  cases header with
  | false => simp [headerRow, Report.ofRows] at hrow
  | true => simpa [headerRow, Report.ofRows] using hrow

/-! ## Overlaps -/

namespace OverlapReport

variable (projects : ProjectPrefixes) (projectOnly header : Bool) {suite : Suite}
  {suites : List Suite} {entries : List (String × NodeOverlap)} {key : String}
  {cause : FileNameFault} {rows : List Row}

/-- Every key of the suite is a file name. -/
def KeysTold (suite : Suite) : Prop :=
  ∀ key ∈ suite.micros.keys, ∃ name, FileName.parse key = .ok name

/-- **The row of a micro benchmark**, whose key tells its name and its configuration. -/
def IsRow (projects : ProjectPrefixes) (projectOnly : Bool) (entry : String × NodeOverlap)
    (fields : Row) : Prop :=
  ∃ name, FileName.parse entry.1 = .ok name ∧
    fields = row projects projectOnly name.base name.config entry.2

/-- **The rows of a suite**: one for each micro benchmark in the order of the keys, and the row of
the total. -/
def IsTable (projects : ProjectPrefixes) (projectOnly : Bool) (suite : Suite)
    (table : List Row) : Prop :=
  ∃ rows, List.Forall₂ (IsRow projects projectOnly)
      (suite.overlap projects projectOnly).micros.entries rows ∧
    table = rows ++ [row projects projectOnly allMicros suite.config
      (suite.overlap projects projectOnly).total]

/-- **The rows of a suite up to a key** that is no file name, the first one of them. -/
structure IsCut (projects : ProjectPrefixes) (projectOnly : Bool) (suite : Suite) (key : String)
    (cause : FileNameFault) (rows : List Row) : Prop where
  refused : FileName.parse key = .error cause
  rows_eq : ∃ before overlap after,
    (suite.overlap projects projectOnly).micros.entries = before ++ (key, overlap) :: after ∧
      List.Forall₂ (IsRow projects projectOnly) before rows

/-- **The rows of suites up to a key** that is no file name: the tables of the suites in front of
its own, and the rows in front of its own. -/
def IsCutAt (projects : ProjectPrefixes) (projectOnly : Bool) (suites : List Suite) (key : String)
    (cause : FileNameFault) (rows : List Row) : Prop :=
  ∃ before suite after tables last, suites = before ++ suite :: after ∧
    List.Forall₂ (IsTable projects projectOnly) before tables ∧
    IsCut projects projectOnly suite key cause last ∧ rows = tables.flatten ++ last

/-! ### One suite -/

lemma exists_rows (hparse : ∀ entry ∈ entries, ∃ name, FileName.parse entry.1 = .ok name) :
    ∃ rows, List.Forall₂ (IsRow projects projectOnly) entries rows ∧
      entries.map (fun entry => microRow projects projectOnly entry.1 entry.2)
        = (rows.map fun row => [row]).map .ofRows := by
  induction entries with
  | nil => exact ⟨[], .nil, rfl⟩
  | cons entry entries ih =>
    obtain ⟨rows, hrows, hmap⟩ := ih fun other hother =>
      hparse other (List.mem_cons_of_mem _ hother)
    obtain ⟨name, hname⟩ := hparse entry List.mem_cons_self
    refine ⟨_ :: rows, .cons ⟨name, hname, rfl⟩ hrows, ?_⟩
    rw [List.map_cons, hmap, microRow, hname]
    rfl

/-- Rows of micro benchmarks stand in front of what follows them. -/
lemma concat_microRows (hparse : ∀ entry ∈ entries, ∃ name, FileName.parse entry.1 = .ok name)
    (later : List Report) :
    ∃ rows, List.Forall₂ (IsRow projects projectOnly) entries rows ∧
      Report.concat (entries.map (fun entry => microRow projects projectOnly entry.1 entry.2)
        ++ later) = ⟨rows ++ (Report.concat later).rows, (Report.concat later).fault⟩ := by
  obtain ⟨rows, hrows, hmap⟩ := exists_rows projects projectOnly hparse
  refine ⟨rows, hrows, ?_⟩
  rw [hmap, Report.concat_ofRows_append, ← List.flatMap_def, List.flatMap_singleton']

/-- **A suite has all its rows** if all of its keys are file names. -/
lemma suiteRows_of_parse (hparse : KeysTold suite) :
    ∃ table, IsTable projects projectOnly suite table ∧
      suiteRows projects projectOnly suite = .ofRows table := by
  have hentries : ∀ entry ∈ (suite.overlap projects projectOnly).micros.entries,
      ∃ name, FileName.parse entry.1 = .ok name := by
    intro entry hentry
    refine hparse entry.1 ?_
    rw [← suite.keys_overlap]
    exact List.mem_map_of_mem hentry
  obtain ⟨rows, hrows, hconcat⟩ := concat_microRows projects projectOnly hentries [.ofRows [_]]
  refine ⟨_, ⟨rows, hrows, rfl⟩, ?_⟩
  rw [suiteRows]
  simp only
  rw [hconcat, (Suite.names_total suite projects projectOnly).2]
  rfl

/-- **The rows of a suite end at its first key** that is no file name. -/
lemma suiteRows_of_error (hkeys : ¬ KeysTold suite) :
    ∃ key ∈ suite.micros.keys, ∃ cause rows, IsCut projects projectOnly suite key cause rows ∧
      suiteRows projects projectOnly suite = ⟨rows, some (.microName key cause)⟩ := by
  have hsame : (suite.overlap projects projectOnly).micros.keys = suite.micros.keys :=
    Suite.keys_overlap
  have hentry : ∃ entry ∈ (suite.overlap projects projectOnly).micros.entries,
      ¬ ∃ name, FileName.parse entry.1 = .ok name := by
    rw [KeysTold, ← hsame] at hkeys
    push Not at hkeys ⊢
    obtain ⟨_, hkey, hnone⟩ := hkeys
    obtain ⟨entry, hentry, rfl⟩ := List.mem_map.1 hkey
    exact ⟨entry, hentry, hnone⟩
  rw [← hsame]
  obtain ⟨before, ⟨key, micro⟩, after, hsplit, hbefore, hfirst⟩ := exists_first_not hentry
  obtain ⟨cause, herror⟩ : ∃ cause, FileName.parse key = .error cause := by
    cases hparse : FileName.parse key with
    | ok name => exact absurd ⟨name, hparse⟩ hfirst
    | error cause => exact ⟨cause, rfl⟩
  obtain ⟨rows, hrows, hconcat⟩ := concat_microRows projects projectOnly hbefore
    (((key, micro) :: after).map (fun entry => microRow projects projectOnly entry.1 entry.2)
      ++ [.ofRows [row projects projectOnly (suite.overlap projects projectOnly).total.microName
        suite.config (suite.overlap projects projectOnly).total]])
  have hrefused : microRow projects projectOnly key micro = .refused (.microName key cause) := by
    rw [microRow, herror]
  have hmem : key ∈ (suite.overlap projects projectOnly).micros.keys := by
    rw [SortedMap.keys, hsplit]
    simp
  refine ⟨key, hmem, cause, rows, ⟨herror, before, micro, after, hsplit, hrows⟩, ?_⟩
  rw [suiteRows]
  simp only
  rw [hsplit, List.map_append, List.append_assoc, hconcat, List.map_cons, hrefused]
  exact congrArg (Report.mk · _) (List.append_nil rows)

/-! ### All suites -/

lemma exists_tables (hparse : ∀ suite ∈ suites, KeysTold suite) :
    ∃ tables, List.Forall₂ (IsTable projects projectOnly) suites tables ∧
      suites.map (suiteRows projects projectOnly) = tables.map .ofRows := by
  induction suites with
  | nil => exact ⟨[], .nil, rfl⟩
  | cons suite suites ih =>
    obtain ⟨tables, htables, hmap⟩ := ih fun other hother =>
      hparse other (List.mem_cons_of_mem _ hother)
    obtain ⟨table, htable, hrows⟩ :=
      suiteRows_of_parse projects projectOnly (hparse suite List.mem_cons_self)
    exact ⟨table :: tables, .cons htable htables, by rw [List.map_cons, List.map_cons, hmap, hrows]⟩

lemma overlapReport_eq_rows (suites : List Suite) : overlapReport projects suites projectOnly header
    = ⟨(headerRow header columns).rows
          ++ (Report.concat (suites.map (suiteRows projects projectOnly))).rows,
        (Report.concat (suites.map (suiteRows projects projectOnly))).fault⟩ := rfl

/-- **A report has the tables of all suites** if all keys are file names. -/
lemma overlapReport_of_parse_all (hparse : ∀ suite ∈ suites, KeysTold suite) :
    ∃ tables, List.Forall₂ (IsTable projects projectOnly) suites tables ∧
      overlapReport projects suites projectOnly header
        = .ofRows ((headerRow header columns).rows ++ tables.flatten) := by
  obtain ⟨tables, htables, hmap⟩ := exists_tables projects projectOnly hparse
  refine ⟨tables, htables, ?_⟩
  have hconcat : Report.concat (tables.map .ofRows) = ⟨tables.flatten, none⟩ := by
    simpa [Report.concat, Report.ofRows] using Report.concat_ofRows_append tables []
  rw [overlapReport_eq_rows, hmap, hconcat]
  rfl

lemma fault_of_parse_all (hparse : ∀ suite ∈ suites, KeysTold suite) :
    (overlapReport projects suites projectOnly header).fault = none := by
  obtain ⟨tables, -, hreport⟩ := overlapReport_of_parse_all projects projectOnly header hparse
  rw [hreport]
  rfl

/-- **A report ends at the first key of all** that is no file name. -/
lemma overlapReport_of_first_error (hkeys : ¬ ∀ suite ∈ suites, KeysTold suite) :
    ∃ key cause rows, IsCutAt projects projectOnly suites key cause rows ∧
      overlapReport projects suites projectOnly header
        = ⟨(headerRow header columns).rows ++ rows, some (.microName key cause)⟩ := by
  push Not at hkeys
  obtain ⟨before, suite, after, rfl, hparse, hfirst⟩ := exists_first_not hkeys
  obtain ⟨tables, htables, hmap⟩ := exists_tables projects projectOnly hparse
  obtain ⟨key, -, cause, last, hcut, hrows⟩ :=
    suiteRows_of_error projects projectOnly hfirst
  refine ⟨key, cause, tables.flatten ++ last,
    ⟨before, suite, after, tables, last, rfl, htables, hcut, rfl⟩, ?_⟩
  rw [overlapReport_eq_rows, List.map_append, hmap, Report.concat_ofRows_append, List.map_cons,
    hrows]
  rfl

/-! ### Fields -/

lemma length_of_isRows (hrows : List.Forall₂ (IsRow projects projectOnly) entries rows) :
    ∀ row ∈ rows, row.length = 11 := by
  intro row hrow
  obtain ⟨entry, -, name, -, rfl⟩ := exists_mem_of_forall₂ hrows hrow
  rfl

lemma length_of_isTables {tables : List (List Row)}
    (htables : List.Forall₂ (IsTable projects projectOnly) suites tables) :
    ∀ row ∈ tables.flatten, row.length = 11 := by
  intro row hrow
  obtain ⟨table, htable, hmem⟩ := List.mem_flatten.1 hrow
  obtain ⟨suite, -, rows, hrows, rfl⟩ := exists_mem_of_forall₂ htables htable
  rcases List.mem_append.1 hmem with hmem | hmem
  · exact length_of_isRows projects projectOnly hrows row hmem
  · obtain rfl := List.mem_singleton.1 hmem
    rfl

/-- **Every row of a report has eleven fields**, whether the report is complete or not. -/
lemma length_of_mem_overlapReport (suites : List Suite) :
    ∀ row ∈ (overlapReport projects suites projectOnly header).rows, row.length = 11 := by
  intro row hrow
  by_cases hparse : ∀ suite ∈ suites, KeysTold suite
  · obtain ⟨tables, htables, hreport⟩ :=
      overlapReport_of_parse_all projects projectOnly header hparse
    rw [hreport] at hrow
    rcases List.mem_append.1 hrow with hrow | hrow
    · rw [mem_headerRow hrow]
      rfl
    · exact length_of_isTables projects projectOnly htables row hrow
  · obtain ⟨key, cause, rows, ⟨before, suite, after, tables, last, -, htables, hcut, rfl⟩, hreport⟩ :=
      overlapReport_of_first_error projects projectOnly header hparse
    obtain ⟨-, rest, overlap, behind, -, hlast⟩ := hcut
    rw [hreport] at hrow
    rcases List.mem_append.1 hrow with hrow | hrow
    · rw [mem_headerRow hrow]
      rfl
    · rcases List.mem_append.1 hrow with hrow | hrow
      · exact length_of_isTables projects projectOnly htables row hrow
      · exact length_of_isRows projects projectOnly hlast row hrow

/-! ### Read back -/

lemma ne_nil_of_mem_overlapReport (suites : List Suite) :
    ∀ row ∈ (overlapReport projects suites projectOnly header).rows, row ≠ [] := by
  intro row hrow
  rintro rfl
  simpa using length_of_mem_overlapReport projects projectOnly header suites [] hrow

/-- **How the report on overlaps is read back.** -/
structure ReadsBack (projects : ProjectPrefixes) (suites : List Suite)
    (projectOnly header : Bool) : Prop where
  /-- The rows of a suite are in the order of its keys. -/
  keys_eq : ∀ suite ∈ suites, (suite.overlap projects projectOnly).micros.keys = suite.micros.keys
  complete : (∀ suite ∈ suites, KeysTold suite) → ∃ tables,
    List.Forall₂ (IsTable projects projectOnly) suites tables ∧
    (overlapReport projects suites projectOnly header).fault = none ∧
    Reader.readRows (overlapReport projects suites projectOnly header).text.toList
      = some ((if header then [columns] else []) ++ tables.flatten)
  broken : (¬ ∀ suite ∈ suites, KeysTold suite) → ∃ key cause rows,
    IsCutAt projects projectOnly suites key cause rows ∧
    (overlapReport projects suites projectOnly header).fault = some (.microName key cause) ∧
    Reader.readRows (overlapReport projects suites projectOnly header).text.toList
      = some ((if header then [columns] else []) ++ rows)
  fields : ∃ rows, Reader.readRows (overlapReport projects suites projectOnly header).text.toList
    = some rows ∧ ∀ row ∈ rows, row.length = 11
  /-- Behind it another report may stand, which has no header. -/
  appended : ∀ suites' projectOnly', ∃ rows rows',
    Reader.readRows (overlapReport projects suites projectOnly header).text.toList = some rows ∧
    Reader.readRows (overlapReport projects suites' projectOnly' false).text.toList = some rows' ∧
    Reader.readRows ((overlapReport projects suites projectOnly header).text
      ++ (overlapReport projects suites' projectOnly' false).text).toList = some (rows ++ rows')

lemma readsBack (suites : List Suite) : ReadsBack projects suites projectOnly header := by
  have hread := fun projectOnly header suites =>
    Report.readRows_text (ne_nil_of_mem_overlapReport projects projectOnly header suites)
  refine ⟨fun suite _ => Suite.keys_overlap, fun hparse => ?_, fun hparse => ?_, ?_, ?_⟩
  · obtain ⟨tables, htables, hreport⟩ :=
      overlapReport_of_parse_all projects projectOnly header hparse
    refine ⟨tables, htables, by rw [hreport]; rfl, ?_⟩
    rw [hread, hreport]
    rfl
  · obtain ⟨key, cause, rows, hcut, hreport⟩ :=
      overlapReport_of_first_error projects projectOnly header hparse
    refine ⟨key, cause, rows, hcut, by rw [hreport], ?_⟩
    rw [hread, hreport]
    rfl
  · exact ⟨_, hread _ _ _, length_of_mem_overlapReport projects projectOnly header suites⟩
  · intro suites' projectOnly'
    exact ⟨_, _, hread _ _ _, hread _ _ _, Report.readRows_text_append
      (ne_nil_of_mem_overlapReport projects projectOnly header suites)
      (ne_nil_of_mem_overlapReport projects projectOnly' false suites')⟩

end OverlapReport

/-! ## Selections -/

namespace MinimizationReport

/-- **The rows of a selection**, ranked from one in the order of selection. -/
structure IsTable (projects : ProjectPrefixes) (projectOnly : Bool) (minimized : Minimized)
    (table : List Row) : Prop where
  length_eq : table.length = minimized.selected.length
  row_eq : ∀ n selected, minimized.selected[n]? = some selected →
    table[n]? = some (row projects projectOnly minimized (n + 1) selected)
  totals : ∀ row ∈ table, row[5]? = some (natField minimized.selected.length)
  ranks : table.map (·[6]?)
    = (List.range' 1 minimized.selected.length).map fun rank => some (natField rank)

variable (projects : ProjectPrefixes) (projectOnly header : Bool)

lemma isTable_suiteRows (minimized : Minimized) :
    IsTable projects projectOnly minimized (suiteRows projects projectOnly minimized) where
  length_eq := by rw [suiteRows, List.length_map, List.length_zipIdx]
  row_eq n selected hselected := by
    simp [suiteRows, hselected, Nat.add_comm]
  totals row hrow := by
    obtain ⟨⟨selected, rank⟩, -, rfl⟩ := List.mem_map.1 hrow
    rfl
  ranks := by
    rw [suiteRows, List.map_map, ← List.zipIdx_map_snd 1 minimized.selected, List.map_map]
    rfl

lemma length_of_mem_minimizationReport (minimized : List Minimized) :
    ∀ row ∈ (minimizationReport projects minimized projectOnly header).rows, row.length = 10 := by
  intro row hrow
  rcases List.mem_append.1 hrow with hrow | hrow
  · rw [mem_headerRow hrow]
    rfl
  · obtain ⟨m, -, hrow⟩ := List.mem_flatMap.1 hrow
    obtain ⟨⟨selected, rank⟩, -, rfl⟩ := List.mem_map.1 hrow
    rfl

lemma ne_nil_of_mem_minimizationReport (minimized : List Minimized) :
    ∀ row ∈ (minimizationReport projects minimized projectOnly header).rows, row ≠ [] := by
  intro row hrow
  rintro rfl
  simpa using length_of_mem_minimizationReport projects projectOnly header minimized [] hrow

/-- **How the report on selections is read back.** -/
structure ReadsBack (projects : ProjectPrefixes) (minimized : List Minimized)
    (projectOnly header : Bool) : Prop where
  fault_eq : (minimizationReport projects minimized projectOnly header).fault = none
  complete : ∃ tables, List.Forall₂ (IsTable projects projectOnly) minimized tables ∧
    Reader.readRows (minimizationReport projects minimized projectOnly header).text.toList
      = some ((if header then [columns] else []) ++ tables.flatten)
  fields : ∃ rows,
    Reader.readRows (minimizationReport projects minimized projectOnly header).text.toList
      = some rows ∧ ∀ row ∈ rows, row.length = 10
  /-- Behind it another report may stand, which has no header. -/
  appended : ∀ minimized' projectOnly', ∃ rows rows',
    Reader.readRows (minimizationReport projects minimized projectOnly header).text.toList
      = some rows ∧
    Reader.readRows (minimizationReport projects minimized' projectOnly' false).text.toList
      = some rows' ∧
    Reader.readRows ((minimizationReport projects minimized projectOnly header).text
      ++ (minimizationReport projects minimized' projectOnly' false).text).toList
        = some (rows ++ rows')

lemma readsBack (minimized : List Minimized) :
    ReadsBack projects minimized projectOnly header := by
  have hread := fun projectOnly header minimized => Report.readRows_text
    (ne_nil_of_mem_minimizationReport projects projectOnly header minimized)
  refine ⟨rfl, ⟨minimized.map (suiteRows projects projectOnly), ?_, ?_⟩, ?_, ?_⟩
  · exact List.forall₂_map_right_iff.2
      (List.forall₂_same.2 fun m _ => isTable_suiteRows projects projectOnly m)
  · rw [hread, ← List.flatMap_def]
    rfl
  · exact ⟨_, hread _ _ _, length_of_mem_minimizationReport projects projectOnly header minimized⟩
  · intro minimized' projectOnly'
    exact ⟨_, _, hread _ _ _, hread _ _ _, Report.readRows_text_append
      (ne_nil_of_mem_minimizationReport projects projectOnly header minimized)
      (ne_nil_of_mem_minimizationReport projects projectOnly' false minimized')⟩

end MinimizationReport

/-! ## Recommendations -/

namespace RecommendationReport

variable (projects : ProjectPrefixes)

/-- **The rows of a recommendation**, each of which tells how many there are. -/
structure IsTable (projects : ProjectPrefixes) (extended : Extended) (table : List Row) :
    Prop where
  rows_eq : List.Forall₂ (fun recommended fields => fields = row projects extended recommended)
    extended.recommended table
  actual : ∀ row ∈ table, row[5]? = some (natField extended.recommended.length)

lemma isTable_suiteRows (extended : Extended) :
    IsTable projects extended (suiteRows projects extended) where
  rows_eq := List.forall₂_map_right_iff.2 (List.forall₂_same.2 fun _ _ => rfl)
  actual row hrow := by
    obtain ⟨recommended, -, rfl⟩ := List.mem_map.1 hrow
    rfl

lemma length_of_mem_recommendationReport (extended : List Extended) :
    ∀ row ∈ (recommendationReport projects extended).rows, row.length = 10 := by
  intro row hrow
  rcases List.mem_append.1 hrow with hrow | hrow
  · rw [mem_headerRow hrow]
    rfl
  · obtain ⟨e, -, hrow⟩ := List.mem_flatMap.1 hrow
    obtain ⟨recommended, -, rfl⟩ := List.mem_map.1 hrow
    rfl

/-- **How the report on recommendations is read back.** -/
structure ReadsBack (projects : ProjectPrefixes) (extended : List Extended) : Prop where
  fault_eq : (recommendationReport projects extended).fault = none
  complete : ∃ tables, List.Forall₂ (IsTable projects) extended tables ∧
    Reader.readRows (recommendationReport projects extended).text.toList
      = some ([columns] ++ tables.flatten)
  fields : ∃ rows, Reader.readRows (recommendationReport projects extended).text.toList
    = some rows ∧ ∀ row ∈ rows, row.length = 10

lemma readsBack (extended : List Extended) : ReadsBack projects extended := by
  have hrows : ∀ row ∈ (recommendationReport projects extended).rows, row ≠ [] := by
    intro row hrow
    rintro rfl
    simpa using length_of_mem_recommendationReport projects extended [] hrow
  have hread := Report.readRows_text hrows
  refine ⟨rfl, ⟨extended.map (suiteRows projects), ?_, ?_⟩, ?_⟩
  · exact List.forall₂_map_right_iff.2
      (List.forall₂_same.2 fun e _ => isTable_suiteRows projects e)
  · rw [hread, ← List.flatMap_def]
    rfl
  · exact ⟨_, hread, length_of_mem_recommendationReport projects extended⟩

end RecommendationReport

/-- **Reports are read back.**  Whatever strings the prefixes, the systems, the keys and the
functions have, a reader that knows nothing of reports finds in the text of a report the header, if
it was asked for, and then the rows of the suites, and nothing else.  A report on overlaps that ends
at a key is read back as the rows in front of it. -/
theorem reports_read_back (projects : ProjectPrefixes) (suites : List Suite)
    (minimized : List Minimized) (extended : List Extended) (projectOnly header : Bool) :
    OverlapReport.ReadsBack projects suites projectOnly header ∧
      MinimizationReport.ReadsBack projects minimized projectOnly header ∧
      RecommendationReport.ReadsBack projects extended :=
  ⟨OverlapReport.readsBack projects projectOnly header suites,
    MinimizationReport.readsBack projects projectOnly header minimized,
    RecommendationReport.readsBack projects extended⟩

end BenchCover
