import BenchCover.Command.Fault
import BenchCover.Command.Summary
import BenchCover.Files.Output
import BenchCover.Report.Minimization
import BenchCover.Report.Overlap
import BenchCover.Report.Recommendation

/-!
# Running analyses

The three analyses as functions on a tree of files.  Each loads the suites and writes reports into
the out directory.

* `overlapCommand` — one report: all functions first, then those of the project.
* `minimizationCommand` — two files for each strategy.  Each strategy runs twice into its files,
  for project functions with the names of the columns, and for all functions after them.
* `recommendationCommand` — two files for each count.

When a part of the second or third analysis fails, the other parts still run.
-/

namespace BenchCover

/-- **What a command comes to**: its summary or a fault, the warnings on the way, and the files as
it leaves them. -/
structure Outcome where
  result : Except CommandFault Summary
  warnings : List Warning
  tree : FileTree

/-! ## Writing files -/

structure Progress where
  tree : FileTree
  /-- The files that were written, each once. -/
  files : List String
  warnings : List Warning

namespace Progress

def addFile (progress : Progress) (path : String) : Progress :=
  if path ∈ progress.files then progress
  else { progress with files := progress.files ++ [path] }

def warn (progress : Progress) (warning : Warning) : Progress :=
  { progress with warnings := progress.warnings ++ [warning] }

/-- Writes reports, each for a purpose, at the end of an opened file. -/
def writeAll (progress : Progress) (path : String) (place : Location) :
    List (OutputPurpose × Report) → Progress × Option CommandFault
  | [] => (progress.addFile path, none)
  | (purpose, report) :: rest =>
    match progress.tree.write place report with
    | (tree, some cause) => ({ progress with tree }, some (.write purpose path cause))
    | (tree, none) => writeAll { progress with tree } path place rest

/-- **Writes a file** that consists of reports, or continues one.  It is noted as written when all
of them are. -/
def writeFile (progress : Progress) (path : String) (fresh : Bool)
    (reports : List (OutputPurpose × Report)) : Progress × Option CommandFault :=
  match progress.tree.openOutput path fresh with
  | .error cause => (progress, some (.openOutput path cause))
  | .ok (tree, place) => writeAll { progress with tree } path place reports

/-- Writes files of one report each, until one cannot be written. -/
def writeFiles (progress : Progress) (purpose : OutputPurpose) (fresh : Bool) :
    List (String × Report) → Progress × Option CommandFault
  | [] => (progress, none)
  | (path, report) :: rest =>
    match progress.writeFile path fresh [(purpose, report)] with
    | (progress, some fault) => (progress, some fault)
    | (progress, none) => writeFiles progress purpose fresh rest

end Progress

/-! ## Analyses -/

def withSuites (config : AnalysisConfig) (analysis : Analysis) (tree : FileTree)
    (run : List Suite → Progress → Progress × Option CommandFault) : Outcome :=
  let loaded := Suite.loadAll tree config.systemDirectory config.microDirectory
  let warnings := loaded.warnings.map .load
  match loaded.result with
  | .error cause =>
    { result := .error (.load config.systemDirectory config.microDirectory cause), warnings, tree }
  | .ok suites =>
    let (progress, fault) := run suites { tree, files := [], warnings }
    let summary : Summary :=
      { analysis, config, configs := suites.length, files := progress.files }
    { result := match fault with
        | some fault => .error fault
        | none => .ok summary
      warnings := progress.warnings
      tree := progress.tree }

def overlapFile : String := "struct_node_overlap.csv"

/-- **Reports overlaps.** -/
def overlapCommand (config : AnalysisConfig) (tree : FileTree) : Outcome :=
  withSuites config .overlap tree fun suites progress =>
    progress.writeFile (config.outputPath overlapFile) true
      [(.allNodes, overlapReport config.projects suites false true),
        (.projectNodes, overlapReport config.projects suites true false)]

def minimizationPath (config : AnalysisConfig) (strategy : Strategy) : String :=
  config.outputPath s!"{config.scenario}_minFile_{strategy.name}.csv"

def minimizedOverlapPath (config : AnalysisConfig) (strategy : Strategy) : String :=
  config.outputPath s!"{config.scenario}_struct_node_overlap_mins-{strategy.name}.csv"

/-- One pass of a strategy.  The first pass starts the files, with the names of the columns. -/
def minimizationPass (config : AnalysisConfig) (suites : List Suite) (strategy : Strategy)
    (projectOnly : Bool) (progress : Progress) : Progress × Option CommandFault :=
  let projects := config.projects
  let overlaps := suites.map (·.overlap projects projectOnly)
  match Suite.minimizeAll suites overlaps strategy (Exclusion.ofProjects projects).negate with
  | .error cause => (progress, some (.minimize strategy cause))
  | .ok minimized =>
    progress.writeFiles (.minimizing strategy) projectOnly
      [(minimizationPath config strategy,
          minimizationReport projects minimized projectOnly projectOnly),
        (minimizedOverlapPath config strategy,
          overlapReport projects (minimized.map (·.suite)) projectOnly projectOnly)]

/-- The passes of a minimization, in order. -/
def minimizationPasses : List (Strategy × Bool) :=
  Strategy.all.flatMap fun strategy => [(strategy, true), (strategy, false)]

/-- **Minimizes suites.** -/
def minimizationCommand (config : AnalysisConfig) (tree : FileTree) : Outcome :=
  withSuites config .minimization tree fun suites progress =>
    let step (progress : Progress) (pass : Strategy × Bool) : Progress :=
      match minimizationPass config suites pass.1 pass.2 progress with
      | (progress, none) => progress
      | (progress, some cause) => progress.warn (.minimization pass.1 pass.2 cause)
    (minimizationPasses.foldl step progress, none)

def recommendationPath (config : AnalysisConfig) (count : Nat) : String :=
  config.outputPath s!"{config.scenario}_recFile_recs-{count}.csv"

def extendedOverlapPath (config : AnalysisConfig) (count : Nat) : String :=
  config.outputPath s!"{config.scenario}_struct_node_overlap_recs-{count}.csv"

def recommendationPass (config : AnalysisConfig) (suites : List Suite)
    (overlaps : List SuiteOverlap) (count : Nat) (progress : Progress) :
    Progress × Option CommandFault :=
  let projects := config.projects
  match Suite.extendAll suites projects overlaps Suite.recommend count with
  | .error cause => (progress, some (.recommend count cause))
  | .ok extended =>
    progress.writeFiles (.recommending count) true
      [(recommendationPath config count, recommendationReport projects extended),
        (extendedOverlapPath config count,
          overlapReport projects (extended.map (·.suite)) true true)]

/-- **Recommends functions**, for each count in turn. -/
def recommendationCommand (config : AnalysisConfig) (counts : List Nat) (tree : FileTree) :
    Outcome :=
  withSuites config .recommendation tree fun suites progress =>
    let overlaps := suites.map (·.overlap config.projects true)
    let step (progress : Progress) (count : Nat) : Progress :=
      match recommendationPass config suites overlaps count progress with
      | (progress, none) => progress
      | (progress, some cause) => progress.warn (.recommendation count cause)
    (counts.foldl step progress, none)

end BenchCover
