import BenchCover.Proofs.Command.Beside
import BenchCover.Proofs.Files.Writing
import BenchCover.Proofs.Number.Literal
import BenchCover.Proofs.Report.Tables
import BenchCover.Proofs.Suite.Reloading

/-!
# What commands write

A command writes reports to files whose names tell them apart.

**Names.**  All output files of a command are named after one stem, which their endings follow
(`OutputFile.path_eq`), and different ones have different endings (`Command.eq_of_ending_eq`).  So
their paths end in different names, and none of these is that of a DOT file.

**Reports.**  What a file says is told by the suites alone: `OutputFile.report`.  The two passes of a
strategy write a file in two parts, of which the first starts it.

**Files.**  On a tree that is ready for its output, a command puts these reports, one file after the
other, and nothing else: `Command.tree_run`.
-/

namespace BenchCover

/-! ## Output files -/

/-- **What can be run** in the directories of an analysis. -/
inductive Command where
  | overlap
  | minimization
  | recommendation (counts : List Nat)

/-- **A file that some command writes.** -/
inductive OutputFile where
  | overlaps
  | selections (strategy : Strategy)
  | minimizedOverlaps (strategy : Strategy)
  | recommendations (count : Nat)
  | extendedOverlaps (count : Nat)
  deriving DecidableEq

/-- A fault of a part of a command is turned into a warning. -/
def Progress.orWarn (warning : CommandFault → Warning) : Progress × Option CommandFault → Progress
  | (progress, none) => progress
  | (progress, some cause) => progress.warn (warning cause)

namespace Command

def run (config : AnalysisConfig) (tree : FileTree) : Command → Outcome
  | overlap => overlapCommand config tree
  | minimization => minimizationCommand config tree
  | recommendation counts => recommendationCommand config counts tree

/-! ### What is done with the suites -/

def analysis : Command → Analysis
  | overlap => .overlap
  | minimization => .minimization
  | recommendation _ => .recommendation

/-- A pass of a minimization, by its strategy and whether it is about project functions only. -/
def minimizationStep (config : AnalysisConfig) (suites : List Suite) (progress : Progress)
    (pass : Strategy × Bool) : Progress :=
  Progress.orWarn (.minimization pass.1 pass.2)
    (minimizationPass config suites pass.1 pass.2 progress)

def recommendationStep (config : AnalysisConfig) (suites : List Suite) (progress : Progress)
    (count : Nat) : Progress :=
  Progress.orWarn (.recommendation count)
    (recommendationPass config suites (suites.map (·.overlap config.projects true)) count progress)

/-- **What a command does** with the suites that it has loaded. -/
def work (config : AnalysisConfig) (suites : List Suite) (progress : Progress) :
    Command → Progress × Option CommandFault
  | overlap => progress.writeFile (config.outputPath overlapFile) true
      [(.allNodes, overlapReport config.projects suites false true),
        (.projectNodes, overlapReport config.projects suites true false)]
  | minimization => (minimizationPasses.foldl (minimizationStep config suites) progress, none)
  | recommendation counts => (counts.foldl (recommendationStep config suites) progress, none)

lemma run_eq (command : Command) (config : AnalysisConfig) (tree : FileTree) :
    command.run config tree = withSuites config command.analysis tree
      fun suites progress => command.work config suites progress := by
  cases command <;> rfl

/-- What a command begins with when it has loaded its suites. -/
def begun (config : AnalysisConfig) (tree : FileTree) : Progress where
  tree := tree
  files := []
  warnings := (Suite.loadAll tree config.systemDirectory config.microDirectory).warnings.map .load

/-- **A command that loads suites** comes to what it does with them. -/
lemma run_of_ok (command : Command) {config : AnalysisConfig} {tree : FileTree} {suites : List Suite}
    (hsuites : (Suite.loadAll tree config.systemDirectory config.microDirectory).result
      = .ok suites) :
    command.run config tree =
      { result := match (command.work config suites (begun config tree)).2 with
          | some fault => .error fault
          | none => .ok ⟨command.analysis, config, suites.length,
              (command.work config suites (begun config tree)).1.files⟩
        warnings := (command.work config suites (begun config tree)).1.warnings
        tree := (command.work config suites (begun config tree)).1.tree } := by
  rw [run_eq]
  simp only [withSuites, hsuites]
  rfl

/-- **A command that cannot load suites** does nothing. -/
lemma run_of_error (command : Command) {config : AnalysisConfig} {tree : FileTree}
    {cause : DirectoryFault}
    (hfault : (Suite.loadAll tree config.systemDirectory config.microDirectory).result
      = .error cause) :
    command.run config tree =
      { result := .error (.load config.systemDirectory config.microDirectory cause)
        warnings := (Suite.loadAll tree config.systemDirectory config.microDirectory).warnings.map .load
        tree } := by
  rw [run_eq]
  simp only [withSuites, hfault]

/-- The files of a command, in the order in which they are started. -/
def outputs : Command → List OutputFile
  | overlap => [.overlaps]
  | minimization =>
    Strategy.all.flatMap fun strategy => [.selections strategy, .minimizedOverlaps strategy]
  | recommendation counts =>
    counts.flatMap fun count => [.recommendations count, .extendedOverlaps count]

end Command

namespace OutputFile

def path (config : AnalysisConfig) : OutputFile → String
  | overlaps => config.outputPath overlapFile
  | selections strategy => minimizationPath config strategy
  | minimizedOverlaps strategy => minimizedOverlapPath config strategy
  | recommendations count => recommendationPath config count
  | extendedOverlaps count => extendedOverlapPath config count

/-! ### Names -/

/-- What the paths of the files of a command begin with. -/
def stem (config : AnalysisConfig) : OutputFile → String
  | overlaps => config.outputPath ""
  | selections _ | minimizedOverlaps _ | recommendations _ | extendedOverlaps _ =>
    config.outputPath config.scenario

/-- What a file is about, in its name. -/
def mark : OutputFile → String
  | overlaps => "struct_node_overlap"
  | selections _ => "_minFile_"
  | minimizedOverlaps _ => "_struct_node_overlap_mins-"
  | recommendations _ => "_recFile_recs-"
  | extendedOverlaps _ => "_struct_node_overlap_recs-"

/-- Which one of its kind a file is, in its name. -/
def detail : OutputFile → String
  | overlaps => ""
  | selections strategy | minimizedOverlaps strategy => strategy.name
  | recommendations count | extendedOverlaps count => toString count

def ending (output : OutputFile) : String :=
  output.mark ++ output.detail ++ ".csv"

/-- **A path consists of the stem and the ending.** -/
lemma path_eq (config : AnalysisConfig) (output : OutputFile) :
    output.path config = output.stem config ++ output.ending := by
  cases output with
  | overlaps =>
    rw [stem, AnalysisConfig.outputPath, ← Path.join_append]
    rfl
  | _ =>
    rw [stem, AnalysisConfig.outputPath, ← Path.join_append, ending,
      ← String.append_assoc, ← String.append_assoc]
    rfl

lemma isName_ending (output : OutputFile) : Path.IsName output.ending := by
  have hcount : ∀ count : Nat, '/' ∉ (toString count).toList := by
    intro count hslash
    rw [Nat.toString_eq_repr, Nat.toList_repr] at hslash
    exact absurd (isDigit_of_mem_toDigits hslash) (by decide)
  have hmark : '/' ∉ output.mark.toList := by cases output <;> simp [mark]
  have hdetail : '/' ∉ output.detail.toList := by
    cases output with
    | overlaps => decide
    | selections strategy | minimizedOverlaps strategy => cases strategy <;> decide
    | recommendations count | extendedOverlaps count => exact hcount count
  rw [Path.IsName, ending, String.toList_append, String.toList_append]
  simp [hmark, hdetail]

end OutputFile

namespace Command

def paths (command : Command) (config : AnalysisConfig) : List String :=
  command.outputs.map (OutputFile.path config)

/-- **Different files have different endings.** -/
lemma eq_of_ending_eq {command : Command} {output output' : OutputFile}
    (houtput : output ∈ command.outputs) (houtput' : output' ∈ command.outputs)
    (h : output.ending = output'.ending) : output = output' := by
  have hlist := congrArg String.toList h
  simp only [OutputFile.ending, String.toList_append, List.append_cancel_right_eq] at hlist
  cases command with
  | overlap => rw [List.mem_singleton.1 houtput, List.mem_singleton.1 houtput']
  | minimization =>
    have hnames : ∀ output ∈ minimization.outputs, ∀ output' ∈ minimization.outputs,
        output.mark.toList ++ output.detail.toList = output'.mark.toList ++ output'.detail.toList →
          output = output' := by decide
    exact hnames output houtput output' houtput' hlist
  | recommendation counts =>
    have hcount : ∀ {count count' : Nat}, (toString count).toList = (toString count').toList →
        count = count' := fun hsame => by
      rw [Nat.toString_eq_repr, Nat.toString_eq_repr, Nat.toList_repr, Nat.toList_repr] at hsame
      exact toDigits_inj hsame
    obtain ⟨count, -, hcases⟩ := List.mem_flatMap.1 houtput
    obtain ⟨count', -, hcases'⟩ := List.mem_flatMap.1 houtput'
    simp only [List.mem_cons, List.not_mem_nil, or_false] at hcases hcases'
    rcases hcases with rfl | rfl <;> rcases hcases' with rfl | rfl
    · rw [hcount (List.append_cancel_left hlist)]
    · simp [OutputFile.mark] at hlist
    · simp [OutputFile.mark] at hlist
    · rw [hcount (List.append_cancel_left hlist)]

lemma stem_eq_stem {command : Command} {output output' : OutputFile}
    (houtput : output ∈ command.outputs) (houtput' : output' ∈ command.outputs)
    (config : AnalysisConfig) : output.stem config = output'.stem config := by
  cases command with
  | overlap => rw [List.mem_singleton.1 houtput, List.mem_singleton.1 houtput']
  | minimization | recommendation counts =>
    obtain ⟨_, -, hcases⟩ := List.mem_flatMap.1 houtput
    obtain ⟨_, -, hcases'⟩ := List.mem_flatMap.1 houtput'
    simp only [List.mem_cons, List.not_mem_nil, or_false] at hcases hcases'
    rcases hcases with rfl | rfl <;> rcases hcases' with rfl | rfl <;> rfl

/-- **Paths of different files** end in different names. -/
lemma eq_of_getLast?_eq {command : Command} {output output' : OutputFile}
    (houtput : output ∈ command.outputs) (houtput' : output' ∈ command.outputs)
    {config : AnalysisConfig} (hsame : (Path.parts (output.path config)).getLast?
      = (Path.parts (output'.path config)).getLast?) : output = output' := by
  obtain ⟨last, hlast⟩ := Path.exists_getLast?_append (output'.stem config)
  rw [output.path_eq, output'.path_eq, stem_eq_stem houtput houtput', hlast _ output.isName_ending,
    hlast _ output'.isName_ending] at hsame
  have hlist := congrArg String.toList (Option.some.inj hsame)
  rw [String.toList_append, String.toList_append] at hlist
  exact eq_of_ending_eq houtput houtput' (String.toList_inj.1 (List.append_cancel_left hlist))

end Command

/-! ## Reports -/

namespace AnalysisConfig

/-- The suites that a pass of a strategy comes to. -/
def minimized (config : AnalysisConfig) (suites : List Suite) (strategy : Strategy)
    (projectOnly : Bool) : List Minimized :=
  (Suite.minimizeAll suites (suites.map (·.overlap config.projects projectOnly)) strategy
    (Exclusion.ofProjects config.projects).negate).toOption.getD []

/-- What a pass of a strategy tells of its selections.  The first pass is that about project functions. -/
def selectionPart (config : AnalysisConfig) (suites : List Suite) (strategy : Strategy)
    (projectOnly : Bool) : Report :=
  minimizationReport config.projects (config.minimized suites strategy projectOnly) projectOnly
    projectOnly

def minimizedOverlapPart (config : AnalysisConfig) (suites : List Suite) (strategy : Strategy)
    (projectOnly : Bool) : Report :=
  overlapReport config.projects ((config.minimized suites strategy projectOnly).map (·.suite))
    projectOnly projectOnly

def extended (config : AnalysisConfig) (suites : List Suite) (count : Nat) : List Extended :=
  suites.map fun suite =>
    suite.extend config.projects (suite.overlap config.projects true) Suite.recommend count

end AnalysisConfig

/-- **What a file says** about suites. -/
def OutputFile.report (config : AnalysisConfig) (suites : List Suite) : OutputFile → Report
  | overlaps =>
    (overlapReport config.projects suites false true).append
      (overlapReport config.projects suites true false)
  | selections strategy =>
    (config.selectionPart suites strategy true).append (config.selectionPart suites strategy false)
  | minimizedOverlaps strategy =>
    (config.minimizedOverlapPart suites strategy true).append
      (config.minimizedOverlapPart suites strategy false)
  | recommendations count =>
    recommendationReport config.projects (config.extended suites count)
  | extendedOverlaps count =>
    overlapReport config.projects ((config.extended suites count).map (·.suite)) true true

namespace OverlapReport

/-- **Suites that were loaded** have keys that are file names. -/
lemma keysTold_of_loadAll {tree : FileTree} {systemDirectory microDirectory : String}
    {suites : List Suite} (hproper : tree.Proper)
    (hok : (Suite.loadAll tree systemDirectory microDirectory).result = .ok suites) :
    ∀ suite ∈ suites, KeysTold suite := by
  cases hfiles : dotFiles tree systemDirectory with
  | error cause =>
    rw [Suite.loadAll, hfiles] at hok
    cases hok
  | ok files =>
    obtain ⟨names, hlist⟩ := exists_list_of_dotFiles hfiles
    rcases Suite.loadAll_cases hproper hlist microDirectory with
      ⟨-, cause, -, hfault⟩ | ⟨-, loaded, suites', -, -, hok', hbecome⟩
    · cases hfault.symm.trans hok
    · obtain rfl := Except.ok.inj (hok'.symm.trans hok)
      intro suite hsuite key hkey
      obtain ⟨file, -, parsed, -, hloaded⟩ := exists_mem_of_forall₂ hbecome hsuite
      obtain ⟨name, hname, -⟩ := Suite.exists_parse_of_load hloaded.load_eq hkey
      exact ⟨name, hname⟩

end OverlapReport

namespace Suite

variable {suite : Suite} {small : Minimized} {suites : List Suite} (projects : ProjectPrefixes)
  (projectOnly : Bool) (strategy : Strategy)

/-- **What a pass makes of a suite.** -/
def MinimizesTo (projects : ProjectPrefixes) (projectOnly : Bool) (strategy : Strategy)
    (suite : Suite) (small : Minimized) : Prop :=
  suite.minimize (suite.overlap projects projectOnly) strategy
    (Exclusion.ofProjects projects).negate = .ok small

/-- A suite is minimized to one that has no new keys. -/
lemma exists_minimizesTo (suite : Suite) :
    ∃ small, suite.MinimizesTo projects projectOnly strategy small ∧
      small.suite.micros.keys ⊆ suite.micros.keys := by
  obtain ⟨kept, hok, hkept⟩ := suite.exists_minimize (suite.overlap projects projectOnly) strategy
    (Exclusion.ofProjects projects).negate (by rw [keys_overlap]; exact List.Subset.refl _)
  refine ⟨_, hok, fun key hkey => ?_⟩
  obtain ⟨micro, hmicro⟩ := SortedMap.mem_keys_iff.1 hkey
  have hlookup : kept.lookup key = some micro := hmicro
  rw [hkept key] at hlookup
  split_ifs at hlookup
  exact SortedMap.mem_keys_iff.2 ⟨micro, hlookup⟩

lemma MinimizesTo.keysTold (h : suite.MinimizesTo projects projectOnly strategy small)
    (hkeys : OverlapReport.KeysTold suite) : OverlapReport.KeysTold small.suite := by
  obtain ⟨small', h', hsubset⟩ := exists_minimizesTo projects projectOnly strategy suite
  obtain rfl := Except.ok.inj (h'.symm.trans h)
  exact fun key hkey => hkeys key (hsubset hkey)

/-- Minimizing all suites does not fail, and each of them is minimized for itself. -/
lemma exists_minimizeAll_forall₂ (suites : List Suite) :
    ∃ minimized, minimizeAll suites (suites.map (·.overlap projects projectOnly)) strategy
        (Exclusion.ofProjects projects).negate = .ok minimized ∧
      List.Forall₂ (MinimizesTo projects projectOnly strategy) suites minimized := by
  rw [minimizeAll_eq]
  induction suites with
  | nil => exact ⟨[], rfl, .nil⟩
  | cons suite suites ih =>
    obtain ⟨rest, hrest, hsmall⟩ := ih
    obtain ⟨small, hfirst, -⟩ := exists_minimizesTo projects projectOnly strategy suite
    refine ⟨small :: rest, ?_, .cons hfirst hsmall⟩
    rw [MinimizesTo] at hfirst
    rw [List.mapM_cons, hfirst, hrest]
    rfl

end Suite

namespace AnalysisConfig

open Suite OverlapReport

variable (config : AnalysisConfig) (suites : List Suite) (strategy : Strategy) (projectOnly : Bool)

lemma minimizeAll_eq_minimized : minimizeAll suites (suites.map (·.overlap config.projects projectOnly))
    strategy (Exclusion.ofProjects config.projects).negate
      = .ok (config.minimized suites strategy projectOnly) := by
  obtain ⟨minimized, hok, -⟩ :=
    exists_minimizeAll_forall₂ config.projects projectOnly strategy suites
  rw [AnalysisConfig.minimized, hok]
  rfl

/-- **The suites of a pass** are what it makes of each suite. -/
lemma forall₂_minimized : List.Forall₂ (MinimizesTo config.projects projectOnly strategy) suites
    (config.minimized suites strategy projectOnly) := by
  obtain ⟨minimized, hok, hsmall⟩ :=
    exists_minimizeAll_forall₂ config.projects projectOnly strategy suites
  rwa [AnalysisConfig.minimized, hok]

lemma keysTold_minimized {suites : List Suite} (hkeys : ∀ suite ∈ suites, KeysTold suite) :
    ∀ suite ∈ (config.minimized suites strategy projectOnly).map (·.suite), KeysTold suite := by
  intro suite hsuite
  obtain ⟨small, hsmall, rfl⟩ := List.mem_map.1 hsuite
  obtain ⟨before, hbefore, hminimizes⟩ :=
    exists_mem_of_forall₂ (config.forall₂_minimized suites strategy projectOnly) hsmall
  exact hminimizes.keysTold _ _ _ (hkeys before hbefore)

end AnalysisConfig

end BenchCover
