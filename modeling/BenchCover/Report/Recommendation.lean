import BenchCover.Report.Basic
import BenchCover.Suite.Recommendation

/-!
# The recommendation report

One row for each function that is recommended, with its times in nanoseconds.
-/

namespace BenchCover

namespace RecommendationReport

def columns : Row :=
  ["project", "system", "config_node_count", "config_node_fraction", "requested_recs",
    "actual_recs", "func_name", "func_time", "func_total_time", "additional_nodes"]

def row (projects : ProjectPrefixes) (extended : Extended) (recommended : Recommended) : Row :=
  [projects.joined, extended.suite.system, extended.suite.config.nodeCountText,
    shareField extended.suite.config.nodeFraction, natField extended.requested,
    natField extended.recommended.length, recommended.function.name,
    natField recommended.function.selfTime.nanoseconds,
    natField recommended.function.totalTime.nanoseconds, natField recommended.additional]

def suiteRows (projects : ProjectPrefixes) (extended : Extended) : List Row :=
  extended.recommended.map (row projects extended)

end RecommendationReport

/-- **The recommendation report** of some extended suites, always with the names of the
columns. -/
def recommendationReport (projects : ProjectPrefixes) (extended : List Extended) : Report :=
  headerRow true RecommendationReport.columns ++
    .ofRows (extended.flatMap (RecommendationReport.suiteRows projects))

end BenchCover
