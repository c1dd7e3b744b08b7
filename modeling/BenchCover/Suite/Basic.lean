import BenchCover.Graph.Basic
import BenchCover.Profile.RenderConfig
import BenchCover.Sorted.Map

/-!
# Suites

The call graphs of one system benchmark and of the micro benchmarks that were rendered with the
same configuration.  All of them were read with one registry, so that functions of the same name
have the same id across the suite.
-/

namespace BenchCover

/-- **A system benchmark with its micro benchmarks.** -/
structure Suite where
  config : RenderConfig
  system : String
  systemGraph : CallGraph
  /-- The graphs of the micro benchmarks, by file name. -/
  micros : SortedMap String CallGraph
  registry : Registry

def Suite.withMicros (suite : Suite) (micros : SortedMap String CallGraph) : Suite :=
  { suite with micros }

end BenchCover
