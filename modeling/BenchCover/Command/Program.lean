import BenchCover.Command.Arguments
import BenchCover.Command.Run

/-!
# The program

What the program does for a command line and a tree of files, as a function: its exit code, what it
prints, and the files as it leaves them.
-/

namespace BenchCover

def version : String := "0.1.0"

def programName : String := "cgscope"

/-- **What a run of the program comes to.** -/
structure ProgramResult where
  exitCode : UInt8
  output : String
  /-- What is wrong, if the arguments could be read. -/
  error : Option String
  warnings : List Warning
  tree : FileTree

def misuseCode : UInt8 := 2

/-- Runs what was asked for.  The directories are checked before the counts. -/
def Request.run (request : Request) (tree : FileTree) : Outcome :=
  let failed (fault : CommandFault) : Outcome := ⟨.error fault, [], tree⟩
  let withConfig (arguments : AnalysisArguments) (command : AnalysisConfig → Outcome) : Outcome :=
    match AnalysisConfig.resolve tree arguments with
    | .error cause => failed (.arguments cause)
    | .ok config => command config
  match request with
  | .overlap arguments => withConfig arguments fun config => overlapCommand config tree
  | .minimization arguments => withConfig arguments fun config => minimizationCommand config tree
  | .recommendation arguments counts =>
    withConfig arguments fun config =>
      match Counts.parse counts with
      | .error cause => failed (.counts cause)
      | .ok counts => recommendationCommand config counts tree

def usage : String :=
  s!"Usage: {programName} [--json] <command> ...\n\n" ++
    "Commands:\n" ++
    "  overlap <projects> <system dir> <micro dir> <out dir>\n" ++
    "  minimization <projects> <system dir> <micro dir> <out dir>\n" ++
    "  recommendation <projects> <system dir> <micro dir> <out dir> <counts>\n"

/-- **Runs the program.** -/
def runProgram (arguments : List String) (tree : FileTree) : ProgramResult :=
  match CommandLine.parse arguments with
  | .help => ⟨0, usage, none, [], tree⟩
  | .version => ⟨0, s!"{programName} {version}\n", none, [], tree⟩
  | .misuse => ⟨misuseCode, "", none, [], tree⟩
  | .run request json =>
    let outcome := request.run tree
    match outcome.result with
    | .error fault =>
      ⟨fault.exitCode, "", some fault.message, outcome.warnings, outcome.tree⟩
    | .ok summary =>
      ⟨0, if json then summary.json else summary.text, none, outcome.warnings, outcome.tree⟩

end BenchCover
