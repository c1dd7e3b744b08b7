import BenchCover.Files.Resolve
import BenchCover.Function.Exclusion

/-!
# What a command works on

The directories and the project of an analysis.  The directories are checked and resolved before
anything else is done, in the order system, micro, out.
-/

namespace BenchCover

inductive Analysis where
  | overlap
  | minimization
  | recommendation
  deriving DecidableEq, Repr

def Analysis.name : Analysis → String
  | overlap => "overlap"
  | minimization => "minimization"
  | recommendation => "recommendation"

inductive DirectoryRole where
  | system
  | micro
  | out
  deriving DecidableEq, Repr

def DirectoryRole.name : DirectoryRole → String
  | system => "system"
  | micro => "micro"
  | out => "out"

inductive ArgumentFault where
  | missing (role : DirectoryRole) (path : String)
  | notADirectory (role : DirectoryRole) (path : String)
  deriving DecidableEq, Repr

def ArgumentFault.message : ArgumentFault → String
  | missing role path => s!"{role.name} dir {path} does not exist"
  | notADirectory role path => s!"{role.name} dir {path} is not a directory"

/-- The name of the scenario of a system directory whose path does not end in a name. -/
def unnamedScenario : String := "unnamed-scenario"

/-- **The scenario of a system directory** is the name that its path ends in. -/
def scenarioOf (path : String) : String :=
  (Path.finalName? path).getD unnamedScenario

/-- **The path of a directory from the root**, without links in it unless it would be too long. -/
def resolveDirectory (tree : FileTree) (role : DirectoryRole) (path : String) :
    Except ArgumentFault String :=
  match tree.resolve path with
  | .ok (.present _ .directory) => .ok ((tree.canonical path).toOption.getD (tree.rooted path))
  | .ok (.present _ _) => .error (.notADirectory role path)
  | _ => .error (.missing role path)

/-- **The directories and the project of an analysis.** -/
structure AnalysisConfig where
  projects : ProjectPrefixes
  systemDirectory : String
  microDirectory : String
  outDirectory : String
  scenario : String
  deriving DecidableEq, Repr

structure AnalysisArguments where
  projects : String
  systemDirectory : String
  microDirectory : String
  outDirectory : String
  deriving DecidableEq, Repr

def AnalysisConfig.resolve (tree : FileTree) (arguments : AnalysisArguments) :
    Except ArgumentFault AnalysisConfig := do
  let systemDirectory ← resolveDirectory tree .system arguments.systemDirectory
  let microDirectory ← resolveDirectory tree .micro arguments.microDirectory
  let outDirectory ← resolveDirectory tree .out arguments.outDirectory
  return {
    projects := .parse arguments.projects
    systemDirectory
    microDirectory
    outDirectory
    scenario := scenarioOf systemDirectory }

def AnalysisConfig.outputPath (config : AnalysisConfig) (name : String) : String :=
  Path.join config.outDirectory name

end BenchCover
