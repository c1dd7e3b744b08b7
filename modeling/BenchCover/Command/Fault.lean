import BenchCover.Command.Config
import BenchCover.Command.Counts
import BenchCover.Report.Basic
import BenchCover.Suite.Load
import BenchCover.Suite.Minimization

/-!
# Why a command fails

The faults of commands, with their exit codes.  A message tells what was being done, then the fault
and then the causes of the fault one by one, the outermost first; a fault whose own words end in its
cause is told this way with the cause twice.
-/

namespace BenchCover

/-! ## Causes -/

def FileNameFault.causes (fault : FileNameFault) : List String :=
  fault.message :: match fault with
    | nodeCount _ cause => [cause.message]
    | nodeFraction _ cause => [cause.message]
    | edgeFraction _ cause => [cause.message]
    | _ => []

def ReportFault.causes (fault : ReportFault) : List String :=
  fault.message :: match fault with
    | record cause => [cause.message]
    | flush cause => [cause.message]
    | microName _ cause => cause.causes

def DirectoryFault.causes (fault : DirectoryFault) : List String :=
  [fault.message, fault.cause.message]

def CountsFault.causes (fault : CountsFault) : List String :=
  fault.message :: match fault with
    | notAnInteger _ cause => [cause.message]
    | notPositive _ => []

/-! ## Faults of commands -/

inductive OutputPurpose where
  | allNodes
  | projectNodes
  | minimizing (strategy : Strategy)
  | recommending (count : Nat)
  deriving DecidableEq, Repr

def OutputPurpose.failure (path : String) : OutputPurpose → String
  | allNodes => s!"Failed to write overlaps of all nodes to {path}"
  | projectNodes => s!"Failed to write overlaps of project nodes to {path}"
  | minimizing strategy => s!"strategy={strategy.name}: could not write {path}"
  | recommending count => s!"count={count}: could not write {path}"

/-- **Why a command fails**, or a part of it. -/
inductive CommandFault where
  | arguments (cause : ArgumentFault)
  | counts (cause : CountsFault)
  | load (systemDirectory microDirectory : String) (cause : DirectoryFault)
  | openOutput (path : String) (cause : FileFault)
  | write (purpose : OutputPurpose) (path : String) (cause : ReportFault)
  | minimize (strategy : Strategy) (cause : MinimizationFault)
  | recommend (count : Nat) (cause : LengthMismatch)
  deriving DecidableEq, Repr

namespace CommandFault

def causes : CommandFault → List String
  | arguments cause => [cause.message]
  | counts cause => cause.causes
  | load systemDirectory microDirectory cause =>
    s!"Failed to load call graphs from {systemDirectory} and {microDirectory}" :: cause.causes
  | openOutput path cause => [s!"Failed to open output file {path}", cause.message]
  | write purpose path cause => purpose.failure path :: cause.causes
  | minimize strategy cause =>
    [s!"strategy={strategy.name}: could not apply minimization", cause.message]
  | recommend count cause =>
    [s!"count={count}: could not apply recommendations", cause.message]

/-- **The fault in words.** -/
def message (fault : CommandFault) : String :=
  ": ".intercalate fault.causes

/-- **The exit code of a command that fails**: 2 for wrong arguments, 3 and 4 for wrong counts, and
1 for everything else. -/
def exitCode : CommandFault → UInt8
  | arguments _ => 2
  | counts (.notAnInteger _ _) => 3
  | counts (.notPositive _) => 4
  | _ => 1

end CommandFault

/-! ## Warnings -/

/-- **What is reported on the way**, about input that is passed over and output that failed. -/
inductive Warning where
  | load (warning : LoadWarning)
  | minimization (strategy : Strategy) (projectOnly : Bool) (cause : CommandFault)
  | recommendation (count : Nat) (cause : CommandFault)

/-- A warning for a reader: what happened, and the details by name. -/
structure Notice where
  message : String
  details : List (String × String)
  deriving DecidableEq, Repr

def LoadWarning.notice : LoadWarning → Notice
  | untippedNode path line =>
    ⟨"dot node without tooltip; skipped", [("file", path), ("line", toString line)]⟩
  | systemFile path cause =>
    ⟨"skipping system file", [("path", path), ("error", cause.message)]⟩
  | microFile path cause =>
    ⟨"skipping micro file", [("path", path), ("error", cause.message)]⟩
  | configuration path config cause =>
    ⟨"skipping configuration",
      [("path", path), ("config", config.display), ("error", cause.message)]⟩

def Warning.notice : Warning → Notice
  | load warning => warning.notice
  | minimization strategy projectOnly cause =>
    ⟨"minimization pass failed",
      [("strategy", strategy.name), ("project_only", boolField projectOnly),
        ("error", cause.message)]⟩
  | recommendation count cause =>
    ⟨"recommendation failed", [("count", toString count), ("error", cause.message)]⟩

end BenchCover
