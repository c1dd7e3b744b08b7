import BenchCover.Report.Basic
import BenchCover.Suite.Minimization

/-!
# The minimization report

One row for each micro benchmark that was selected, ranked from one in the order of selection.
-/

namespace BenchCover

namespace MinimizationReport

def columns : Row :=
  ["project", "system", "config_node_count", "config_node_fraction", "project_only", "total",
    "rank", "name", "additional_nodes", "appBenchTime(ms)"]

def row (projects : ProjectPrefixes) (projectOnly : Bool) (minimized : Minimized) (rank : Nat)
    (selected : Selected) : Row :=
  [projects.joined, minimized.suite.system, minimized.suite.config.nodeCountText,
    shareField minimized.suite.config.nodeFraction, boolField projectOnly,
    natField minimized.selected.length, natField rank, selected.key,
    natField selected.additional, natField (selected.systemTime.nanoseconds / Duration.millisecond)]

def suiteRows (projects : ProjectPrefixes) (projectOnly : Bool) (minimized : Minimized) :
    List Row :=
  (minimized.selected.zipIdx 1).map fun (selected, rank) =>
    row projects projectOnly minimized rank selected

end MinimizationReport

/-- **The minimization report** of some minimized suites. -/
def minimizationReport (projects : ProjectPrefixes) (minimized : List Minimized)
    (projectOnly header : Bool) : Report :=
  headerRow header MinimizationReport.columns ++
    .ofRows (minimized.flatMap (MinimizationReport.suiteRows projects projectOnly))

end BenchCover
