import BenchCover.Report.Basic
import BenchCover.Suite.Overlap

/-!
# The overlap report

One row for each micro benchmark of each suite, and a row for the total of each suite.
-/

namespace BenchCover

namespace OverlapReport

def columns : Row :=
  ["project", "system", "micro", "config_node_count", "config_node_fraction", "project_only",
    "system_nodes", "micro_nodes", "overlap_type", "overlap_nodes", "overlap_perc"]

def overlapType : String := "node"

def row (projects : ProjectPrefixes) (projectOnly : Bool) (micro : String) (config : RenderConfig)
    (overlap : NodeOverlap) : Row :=
  [projects.joined, overlap.systemName, micro, config.nodeCountText,
    shareField config.nodeFraction, boolField projectOnly, natField overlap.systemNodes.size,
    natField overlap.microNodes.size, overlapType, natField overlap.sharedNodes.size,
    shareField overlap.share]

/-- The row of a micro benchmark, whose name and configuration are told by its key. -/
def microRow (projects : ProjectPrefixes) (projectOnly : Bool) (key : String)
    (overlap : NodeOverlap) : Report :=
  match FileName.parse key with
  | .ok name => .ofRows [row projects projectOnly name.base name.config overlap]
  | .error cause => .refused (.microName key cause)

/-- The rows of a suite: its micro benchmarks in the order of their keys, and the total. -/
def suiteRows (projects : ProjectPrefixes) (projectOnly : Bool) (suite : Suite) : Report :=
  let overlap := suite.overlap projects projectOnly
  let micros := overlap.micros.entries.map fun (key, micro) =>
    microRow projects projectOnly key micro
  let total := row projects projectOnly overlap.total.microName suite.config overlap.total
  .concat (micros ++ [.ofRows [total]])

end OverlapReport

/-- **The overlap report** of some suites. -/
def overlapReport (projects : ProjectPrefixes) (suites : List Suite) (projectOnly header : Bool) :
    Report :=
  headerRow header OverlapReport.columns ++
    .concat (suites.map (OverlapReport.suiteRows projects projectOnly))

end BenchCover
