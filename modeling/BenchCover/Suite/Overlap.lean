import BenchCover.Function.Exclusion
import BenchCover.Suite.Basic

/-!
# Overlaps

Which functions of a system benchmark its micro benchmarks exercise.  For each micro benchmark the
functions of both graphs are collected, either all of them or those of the project, and
intersected.  The total of a suite counts for each function in how many of the micro benchmarks it
was found.

* `NodeOverlap.between` — the overlap of two graphs.
* `Suite.overlap` — the overlaps of a suite and their total.
-/

namespace BenchCover

/-- How often each function was counted. -/
abbrev NodeCounts := SortedMap FunctionId Nat

namespace NodeCounts

/-- The functions of a graph, each counted once, or those of them that belong to the project. -/
def ofGraph (projects : ProjectPrefixes) (projectOnly : Bool) (g : CallGraph) : NodeCounts :=
  .ofList ((g.functions.filter fun f => !projectOnly || projects.covers f.name).map (·.id, 1))

def add (a b : NodeCounts) : NodeCounts :=
  b.entries.foldl (fun counts (id, n) => counts.upsert id (·.getD 0 + n)) a

/-- The functions that are counted in both, each counted once. -/
def shared (a b : NodeCounts) : NodeCounts :=
  (a.filter fun id _ => b.contains id).map fun _ _ => 1

end NodeCounts

inductive OverlapSide where
  | system
  | micro
  | shared
  deriving DecidableEq, Repr

/-- **The overlap of a micro benchmark with a system benchmark**, or of all of its micro
benchmarks. -/
structure NodeOverlap where
  systemName : String
  microName : String
  systemNodes : NodeCounts
  microNodes : NodeCounts
  sharedNodes : NodeCounts
  /-- The part of the system functions that are shared. -/
  share : Binary64

namespace NodeOverlap

def empty (systemName microName : String) : NodeOverlap where
  systemName
  microName
  systemNodes := .empty
  microNodes := .empty
  sharedNodes := .empty
  share := .zero false

def nodes (overlap : NodeOverlap) : OverlapSide → NodeCounts
  | .system => overlap.systemNodes
  | .micro => overlap.microNodes
  | .shared => overlap.sharedNodes

/-- The overlap with its share worked out; without system functions the share is zero. -/
def withShare (overlap : NodeOverlap) : NodeOverlap :=
  { overlap with
    share :=
      if overlap.systemNodes.size = 0 then .zero false
      else .ofRatio false overlap.sharedNodes.size overlap.systemNodes.size }

def add (overlap other : NodeOverlap) : NodeOverlap :=
  { overlap with
    systemNodes := overlap.systemNodes.add other.systemNodes
    microNodes := overlap.microNodes.add other.microNodes
    sharedNodes := overlap.sharedNodes.add other.sharedNodes }

/-- **The overlap of two graphs.** -/
def between (projects : ProjectPrefixes) (projectOnly : Bool) (systemName microName : String)
    (system micro : CallGraph) : NodeOverlap :=
  let systemNodes := NodeCounts.ofGraph projects projectOnly system
  let microNodes := NodeCounts.ofGraph projects projectOnly micro
  withShare
    { empty systemName microName with
      systemNodes
      microNodes
      sharedNodes := systemNodes.shared microNodes }

end NodeOverlap

/-- **The overlaps of a suite**: one for each micro benchmark, and their total. -/
structure SuiteOverlap where
  system : String
  micros : SortedMap String NodeOverlap
  total : NodeOverlap

/-- What the total of a suite has for the name of a micro benchmark. -/
def allMicros : String := "ALL"

/-- The overlaps of a suite, over all functions or over those of the project. -/
def Suite.overlap (suite : Suite) (projects : ProjectPrefixes) (projectOnly : Bool) :
    SuiteOverlap :=
  let micros := suite.micros.map fun key micro =>
    NodeOverlap.between projects projectOnly suite.system key suite.systemGraph micro
  { system := suite.system
    micros
    total := (micros.values.foldl NodeOverlap.add (.empty suite.system allMicros)).withShare }

/-- Leaves out the functions that some micro benchmark of the suite exercises. -/
def SuiteOverlap.covered (overlap : SuiteOverlap) : Exclusion :=
  ⟨fun f _ => overlap.total.sharedNodes.contains f.id⟩

end BenchCover
