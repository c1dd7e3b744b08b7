import BenchCover.Graph.Levels
import BenchCover.Suite.Minimization

/-!
# Recommending functions

Functions of the system benchmark that are worth a micro benchmark of their own.  Any project
function that no micro benchmark exercises yet can be recommended.  The best one reaches the most
project functions that are not exercised yet; of those that reach equally many, the one nearest to
a root of the graph is better, then the one that reaches more other functions, and at last the name
decides.  A recommended function takes all that it reaches away from the others.

* `Suite.recommend` — the recommended functions, best first.
* `Suite.extend` — the suite with a micro benchmark for each recommended function.
-/

namespace BenchCover

/-- **A function that may be recommended.** -/
structure Prospect where
  function : Function
  /-- Its distance from the roots of the graph; a function that no root reaches has none. -/
  level : Option Nat
  /-- The project functions that it reaches and nothing exercises yet. -/
  projectNodes : IdSet
  /-- The other functions that it reaches and nothing exercises yet. -/
  otherNodes : IdSet
  deriving DecidableEq

structure Recommended where
  function : Function
  /-- How many project functions it reaches that no earlier recommendation does. -/
  additional : Nat
  deriving DecidableEq, Repr

namespace Prospect

/-- Adds a function that is reached, unless it is exercised already. -/
def reach (isProject covered : Exclusion) (prospect : Prospect) (visit : Function × Nat) :
    Prospect :=
  let (f, distance) := visit
  if covered.excludes f (some distance) then prospect
  else if isProject.excludes f (some distance) then
    { prospect with projectNodes := prospect.projectNodes.insert f.id }
  else
    { prospect with otherNodes := prospect.otherNodes.insert f.id }

def ofFunction (g : CallGraph) (levels : Levels) (isProject covered : Exclusion) (f : Function) :
    Prospect :=
  (g.visits f.id).foldl (reach isProject covered) ⟨f, levels.level? f.id, .empty, .empty⟩

/-- Whether a level is nearer to the roots than another one.  No level at all is farthest. -/
def nearer : Option Nat → Option Nat → Bool
  | some a, some b => a < b
  | some _, none => true
  | none, _ => false

def before (a b : Prospect) : Bool :=
  if a.projectNodes.size ≠ b.projectNodes.size then b.projectNodes.size < a.projectNodes.size
  else if a.level ≠ b.level then nearer a.level b.level
  else if a.otherNodes.size ≠ b.otherNodes.size then b.otherNodes.size < a.otherNodes.size
  else a.function.name < b.function.name

/-- The prospect without what another one reaches. -/
def without (a b : Prospect) : Prospect :=
  { a with
    projectNodes := a.projectNodes.diff (b.projectNodes.insert b.function.id)
    otherNodes := a.otherNodes.diff b.otherNodes }

/-- **Recommends up to `count` prospects**, as long as they reach something new. -/
def recommend : (count : Nat) → List Prospect → List Recommended
  | 0, _ => []
  | count + 1, prospects =>
    match ranked before prospects with
    | [] => []
    | best :: others =>
      if best.projectNodes.isEmpty then
        []
      else
        let others := others.filter fun other => other.function.id ∉ best.projectNodes
        ⟨best.function, best.projectNodes.size⟩ :: recommend count (others.map (·.without best))

end Prospect

/-- **A way to choose functions to recommend**, at most as many as asked for. -/
abbrev Recommender := ProjectPrefixes → Suite → SuiteOverlap → (count : Nat) → List Recommended

namespace Suite

/-- The functions of a suite that may be recommended, in the order of the graph. -/
def prospects (suite : Suite) (projects : ProjectPrefixes) (overlap : SuiteOverlap) :
    List Prospect :=
  let g := suite.systemGraph
  let isProject := Exclusion.ofProjects projects
  let covered := overlap.covered
  let levels := g.levels g.roots (isProject.negate.either covered)
  let functions := g.functions.filter fun f =>
    isProject.excludes f none && !covered.excludes f none
  functions.map (Prospect.ofFunction g levels isProject covered)

/-- **The functions that are recommended**, best first. -/
def recommend : Recommender := fun projects suite overlap count =>
  Prospect.recommend count (suite.prospects projects overlap)

end Suite

/-! ## Extended suites -/

/-- What the keys of micro benchmarks for recommended functions start with. -/
def recommendedStart : String := "rec-bench"

structure Extended where
  /-- The suite with one more micro benchmark for each recommended function. -/
  suite : Suite
  recommended : List Recommended
  requested : Nat

namespace Suite

def recommendedKey (suite : Suite) (f : Function) : String :=
  s!"{recommendedStart}_{f.id}_{f.name}{settingSeparator}{suite.config.suffix}"

/-- The suite with a micro benchmark for a function: the part of the system graph that the function
reaches. -/
def addRecommended (source suite : Suite) (recommended : Recommended) : Suite :=
  suite.withMicros (suite.micros.insert (source.recommendedKey recommended.function)
    (source.systemGraph.reachableSubgraph recommended.function.id))

/-- **Extends a suite** by what a recommender chooses. -/
def extend (suite : Suite) (projects : ProjectPrefixes) (overlap : SuiteOverlap)
    (recommender : Recommender) (count : Nat) : Extended :=
  let recommended := recommender projects suite overlap count
  { suite := recommended.foldl suite.addRecommended suite
    recommended
    requested := count }

/-- Extends suites, each with the overlap at the same place. -/
def extendAll (suites : List Suite) (projects : ProjectPrefixes) (overlaps : List SuiteOverlap)
    (recommender : Recommender) (count : Nat) : Except LengthMismatch (List Extended) :=
  if suites.length = overlaps.length then
    .ok ((suites.zip overlaps).map fun (suite, overlap) =>
      suite.extend projects overlap recommender count)
  else
    .error ⟨suites.length, overlaps.length⟩

end Suite

end BenchCover
