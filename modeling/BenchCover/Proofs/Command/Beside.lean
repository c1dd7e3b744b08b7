import BenchCover.Command.Run
import BenchCover.Proofs.Report.Alike
import BenchCover.Proofs.Suite.PassedOver

/-!
# Runs side by side

Two runs of a command, on trees of which the second has a DOT file more.

**The same directories.**  Arguments that tell the directories of an analysis tell the same ones in
both trees (`AnalysisConfig.resolve_beside`).

**The same work.**  Analyses do the same with alike suites, whatever was written before
(`minimizationPass_eq`, `recommendationPass_eq`).

**The same output.**  All output goes to files whose names end otherwise than that of a DOT file, so
that the runs stay side by side (`Progress.Beside`): they note the same files, and they fail
together.
-/

namespace BenchCover

variable {place : Location} {bytes : List UInt8} {config : AnalysisConfig}
  {suites suites' : List Suite}

/-! ## The same directories -/

lemma resolveDirectory_putsFile {tree tree' : FileTree}
    (h : FileTree.PutsFile place bytes tree tree') (hgrounded : tree.Grounded)
    {role : DirectoryRole} {path absolute : String}
    (hok : resolveDirectory tree role path = .ok absolute) :
    resolveDirectory tree' role path = .ok absolute := by
  rw [resolveDirectory] at hok ⊢
  split at hok
  · next found hresolve =>
    rw [h.resolve_directory hresolve]
    simp only
    rw [h.canonical_directory hgrounded hresolve, FileTree.rooted, h.workingDirectory]
    exact hok
  · cases hok
  · cases hok

/-- **Arguments tell the same directories** when a file is put somewhere. -/
lemma AnalysisConfig.resolve_putsFile {tree tree' : FileTree}
    (h : FileTree.PutsFile place bytes tree tree') (hgrounded : tree.Grounded)
    {arguments : AnalysisArguments} (hok : AnalysisConfig.resolve tree arguments = .ok config) :
    AnalysisConfig.resolve tree' arguments = .ok config := by
  rw [AnalysisConfig.resolve] at hok ⊢
  cases hsystem : resolveDirectory tree .system arguments.systemDirectory with
  | error cause =>
    rw [hsystem] at hok
    cases hok
  | ok systemDirectory =>
    cases hmicro : resolveDirectory tree .micro arguments.microDirectory with
    | error cause =>
      rw [hsystem, hmicro] at hok
      cases hok
    | ok microDirectory =>
      cases hout : resolveDirectory tree .out arguments.outDirectory with
      | error cause =>
        rw [hsystem, hmicro, hout] at hok
        cases hok
      | ok outDirectory =>
        rw [hsystem, hmicro, hout] at hok
        rw [resolveDirectory_putsFile h hgrounded hsystem,
          resolveDirectory_putsFile h hgrounded hmicro, resolveDirectory_putsFile h hgrounded hout]
        exact hok

/-- **Arguments tell the same directories in both trees.** -/
lemma AnalysisConfig.resolve_beside {tree tree' : FileTree}
    (h : FileTree.Beside place bytes tree tree') {arguments : AnalysisArguments}
    (hok : AnalysisConfig.resolve tree arguments = .ok config) :
    AnalysisConfig.resolve tree' arguments = .ok config :=
  AnalysisConfig.resolve_putsFile h.puts h.grounded hok

/-! ## The same work -/

lemma overlapReports_eq (h : List.Forall₂ Suite.SameSystem suites suites')
    (projects : ProjectPrefixes) (projectOnly header : Bool) :
    overlapReport projects suites projectOnly header
      = overlapReport projects suites' projectOnly header :=
  overlapReport_eq (h.imp fun _ _ hsame => hsame.toAlike) projects projectOnly header

/-- **A pass of a minimization does the same with alike suites.** -/
theorem minimizationPass_eq (h : List.Forall₂ Suite.SameSystem suites suites')
    (strategy : Strategy) (projectOnly : Bool) (progress : Progress) :
    minimizationPass config suites strategy projectOnly progress
      = minimizationPass config suites' strategy projectOnly progress := by
  obtain ⟨minimized, minimized', hok, hok', halike⟩ := exists_minimizeAll
    (h.imp fun _ _ hsame => hsame.toAlike) config.projects projectOnly strategy
  simp only [minimizationPass, hok, hok']
  rw [minimizationReport_eq halike, overlapReport_eq (alike_of_minimized halike)]

/-- **Recommending does the same with alike suites.** -/
theorem recommendationPass_eq (h : List.Forall₂ Suite.SameSystem suites suites') (count : Nat)
    (progress : Progress) :
    recommendationPass config suites (suites.map (·.overlap config.projects true)) count progress
      = recommendationPass config suites' (suites'.map (·.overlap config.projects true)) count
          progress := by
  obtain ⟨extended, extended', hok, hok', halike⟩ := exists_extendAll h config.projects count
  simp only [recommendationPass, hok, hok']
  rw [recommendationReport_eq halike, overlapReport_eq (alike_of_extended halike)]

/-! ## The same output -/

/-- A path to which output can go beside the additional file. -/
def OutputBeside (place : Location) (path : String) : Prop :=
  (Path.parts path).getLast? ≠ place.getLast?

/-- **Output goes to files of another kind** than DOT files. -/
lemma outputBeside_csv {directory : Location} {name : String}
    (hdot : dotExtension.toList <:+ name.toList) (config : AnalysisConfig) (start : String) :
    OutputBeside (directory ++ [name]) (config.outputPath (start ++ ".csv")) := by
  have hpath : ['v'] <:+ (config.outputPath (start ++ ".csv")).toList := by
    refine List.IsSuffix.trans ?_ (Path.suffix_join config.outDirectory _)
    exact ⟨start.toList ++ ['.', 'c', 's'], by rw [String.toList_append, List.append_assoc]; rfl⟩
  obtain ⟨front, last, hparts, hlast⟩ := Path.exists_parts_concat (by decide) hpath
  have hname : ['t'] <:+ name.toList := List.IsSuffix.trans ⟨['.', 'd', 'o'], rfl⟩ hdot
  intro hsame
  rw [hparts, List.getLast?_concat, List.getLast?_concat] at hsame
  cases hsame
  obtain ⟨before, hbefore⟩ := hlast
  obtain ⟨before', hbefore'⟩ := hname
  have hends := congrArg List.getLast? (hbefore.trans hbefore'.symm)
  rw [List.getLast?_concat, List.getLast?_concat] at hends
  exact absurd hends (by decide)

namespace Progress

/-- **Two runs that have written the same.** -/
structure Beside (place : Location) (bytes : List UInt8) (progress progress' : Progress) : Prop where
  tree : FileTree.Beside place bytes progress.tree progress'.tree
  files : progress.files = progress'.files

variable {progress progress' : Progress} {path : String}

namespace Beside

lemma warn (h : progress.Beside place bytes progress') (warning warning' : Warning) :
    (progress.warn warning).Beside place bytes (progress'.warn warning') :=
  ⟨h.tree, h.files⟩

lemma addFile (h : progress.Beside place bytes progress') (path : String) :
    (progress.addFile path).Beside place bytes (progress'.addFile path) := by
  rw [Progress.addFile, Progress.addFile, h.files]
  split_ifs
  · exact h
  · exact ⟨h.tree, rfl⟩

/-- **What two runs come to**: they have written the same, and both failed or none did. -/
structure After (place : Location) (bytes : List UInt8)
    (result result' : Progress × Option CommandFault) : Prop where
  written : result.1.Beside place bytes result'.1
  failed : result.2.isSome = result'.2.isSome

lemma writeAll (h : progress.Beside place bytes progress') {other : Location}
    (hother : other ≠ place) (reports : List (OutputPurpose × Report)) :
    After place bytes (progress.writeAll path other reports)
      (progress'.writeAll path other reports) := by
  induction reports generalizing progress progress' with
  | nil => exact ⟨h.addFile path, rfl⟩
  | cons first rest ih =>
    obtain ⟨purpose, report⟩ := first
    obtain ⟨hfault, htree⟩ := h.tree.write hother report
    rw [Progress.writeAll, Progress.writeAll]
    cases hwrite : progress.tree.write other report with
    | mk tree fault =>
      cases hwrite' : progress'.tree.write other report with
      | mk tree' fault' =>
        rw [hwrite, hwrite'] at hfault htree
        obtain rfl : fault' = fault := hfault
        cases fault' with
        | some cause => exact ⟨⟨htree, h.files⟩, rfl⟩
        | none => exact ih ⟨htree, h.files⟩

lemma writeFile (h : progress.Beside place bytes progress') (hpath : OutputBeside place path)
    (fresh : Bool) (reports : List (OutputPurpose × Report)) :
    After place bytes (progress.writeFile path fresh reports)
      (progress'.writeFile path fresh reports) := by
  rw [Progress.writeFile, Progress.writeFile]
  rcases h.tree.openOutput hpath fresh with
    ⟨fault, fault', hopen, hopen'⟩ | ⟨next, next', other, hopen, hopen', hnext, hother⟩
  · rw [hopen, hopen']
    exact ⟨h, rfl⟩
  · rw [hopen, hopen']
    have hopened : Progress.Beside place bytes { progress with tree := next }
        { progress' with tree := next' } := ⟨hnext, h.files⟩
    exact hopened.writeAll hother reports

lemma writeFiles (h : progress.Beside place bytes progress') (purpose : OutputPurpose)
    (fresh : Bool) {files : List (String × Report)} (hpaths : ∀ file ∈ files, OutputBeside place file.1) :
    After place bytes (progress.writeFiles purpose fresh files)
      (progress'.writeFiles purpose fresh files) := by
  induction files generalizing progress progress' with
  | nil => exact ⟨h, rfl⟩
  | cons file rest ih =>
    obtain ⟨path, report⟩ := file
    obtain ⟨hwritten, hfault⟩ :=
      h.writeFile (hpaths _ List.mem_cons_self) fresh [(purpose, report)]
    rw [Progress.writeFiles, Progress.writeFiles]
    cases hwrite : progress.writeFile path fresh [(purpose, report)] with
    | mk next fault =>
      cases hwrite' : progress'.writeFile path fresh [(purpose, report)] with
      | mk next' fault' =>
        rw [hwrite, hwrite'] at hwritten hfault
        cases fault with
        | some cause =>
          cases fault' with
          | some cause' => exact ⟨hwritten, rfl⟩
          | none => cases hfault
        | none =>
          cases fault' with
          | some cause' => cases hfault
          | none => exact ih hwritten fun other hother => hpaths other (List.mem_cons_of_mem _ hother)

end Beside

end Progress

/-! ## Commands -/

/-- **What two runs of a command come to**: the same summary or a fault in both, and the same files
but for the one at the place. -/
structure Outcome.SameBut (place : Location) (outcome outcome' : Outcome) : Prop where
  summary : outcome.result.toOption = outcome'.result.toOption
  files : ∀ other, other ≠ place → outcome.tree.get? other = outcome'.tree.get? other

namespace Progress.Beside

variable {directory : Location} {name : String} {progress progress' : Progress}

/-- Faults that are turned into warnings do not tell two runs apart. -/
lemma warnIf (warning : CommandFault → Warning) :
    ∀ {result result' : Progress × Option CommandFault}, After place bytes result result' →
      Progress.Beside place bytes
        (match result with
          | (progress, none) => progress
          | (progress, some cause) => progress.warn (warning cause))
        (match result' with
          | (progress, none) => progress
          | (progress, some cause) => progress.warn (warning cause))
  | (_, none), (_, none), h => h.written
  | (_, none), (_, some _), h => ⟨h.written.tree, h.written.files⟩
  | (_, some _), (_, none), h => ⟨h.written.tree, h.written.files⟩
  | (_, some _), (_, some _), h => h.written.warn _ _

lemma minimizationPass (h : progress.Beside (directory ++ [name]) bytes progress')
    (hdot : dotExtension.toList <:+ name.toList) (config : AnalysisConfig) (suites : List Suite)
    (strategy : Strategy) (projectOnly : Bool) :
    After (directory ++ [name]) bytes
      (BenchCover.minimizationPass config suites strategy projectOnly progress)
      (BenchCover.minimizationPass config suites strategy projectOnly progress') := by
  simp only [BenchCover.minimizationPass]
  split
  · exact ⟨h, rfl⟩
  · refine h.writeFiles _ _ (List.forall_mem_cons.2 ⟨outputBeside_csv hdot config _, ?_⟩)
    exact List.forall_mem_singleton.2 (outputBeside_csv hdot config _)

lemma recommendationPass (h : progress.Beside (directory ++ [name]) bytes progress')
    (hdot : dotExtension.toList <:+ name.toList) (config : AnalysisConfig) (suites : List Suite)
    (overlaps : List SuiteOverlap) (count : Nat) :
    After (directory ++ [name]) bytes
      (BenchCover.recommendationPass config suites overlaps count progress)
      (BenchCover.recommendationPass config suites overlaps count progress') := by
  simp only [BenchCover.recommendationPass]
  split
  · exact ⟨h, rfl⟩
  · refine h.writeFiles _ _ (List.forall_mem_cons.2 ⟨outputBeside_csv hdot config _, ?_⟩)
    exact List.forall_mem_singleton.2 (outputBeside_csv hdot config _)

/-- Steps that keep runs side by side do so one after the other. -/
lemma foldl {α : Type} {step step' : Progress → α → Progress}
    (hstep : ∀ {progress progress' : Progress} (a : α), progress.Beside place bytes progress' →
      (step progress a).Beside place bytes (step' progress' a)) (l : List α)
    (h : progress.Beside place bytes progress') :
    (l.foldl step progress).Beside place bytes (l.foldl step' progress') := by
  induction l generalizing progress progress' with
  | nil => exact h
  | cons a rest ih => exact ih (hstep a h)

end Progress.Beside

/-- **Commands that load alike suites and do the same with them** come to the same. -/
theorem sameBut_withSuites {tree tree' : FileTree} (h : FileTree.Beside place bytes tree tree')
    (hsuites : (Suite.loadAll tree config.systemDirectory config.microDirectory).result = .ok suites)
    (hsuites' : (Suite.loadAll tree' config.systemDirectory config.microDirectory).result
      = .ok suites') (hlength : suites.length = suites'.length) (analysis : Analysis)
    {run : List Suite → Progress → Progress × Option CommandFault}
    (hrun : ∀ progress progress', progress.Beside place bytes progress' →
      Progress.Beside.After place bytes (run suites progress) (run suites' progress')) :
    (withSuites config analysis tree run).SameBut place (withSuites config analysis tree' run) := by
  simp only [withSuites, hsuites, hsuites']
  obtain ⟨hafter, hfault⟩ := hrun
    ⟨tree, [], (Suite.loadAll tree config.systemDirectory config.microDirectory).warnings.map .load⟩
    ⟨tree', [], (Suite.loadAll tree' config.systemDirectory config.microDirectory).warnings.map
      .load⟩ ⟨h, rfl⟩
  refine ⟨?_, fun other hother => (hafter.tree.puts.elsewhere other hother).symm⟩
  simp only
  split
  · next cause hcause =>
    rw [hcause, Option.isSome_some] at hfault
    obtain ⟨cause', hcause'⟩ := Option.isSome_iff_exists.1 hfault.symm
    rw [hcause']
    rfl
  · next hnone =>
    rw [hnone, Option.isSome_none] at hfault
    rw [Option.isSome_eq_false_iff.1 hfault.symm |> Option.isNone_iff_eq_none.1, hafter.files,
      hlength]

end BenchCover
