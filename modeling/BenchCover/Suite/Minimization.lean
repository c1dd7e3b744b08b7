import BenchCover.Function.IdSet
import BenchCover.Suite.Greedy
import BenchCover.Suite.Overlap

/-!
# Minimizing a suite

Choosing few micro benchmarks that cover what all of them cover.  Each micro benchmark covers a set
of functions.  The one with the largest set is selected, its functions are taken out of the other
sets, and so on until all sets are empty; of sets of the same size the one with the smaller key
comes first.

* `Suite.select` — the micro benchmarks that are selected, in order.
* `Suite.minimize` — the suite with only these.
-/

namespace BenchCover

inductive Strategy where
  /-- What the micro benchmarks exercise. -/
  | greedyMicro
  /-- What the micro benchmarks and the system benchmark exercise. -/
  | greedySystem
  deriving DecidableEq, Repr

namespace Strategy

/-- The strategies, in the order in which they are run. -/
def all : List Strategy := [greedyMicro, greedySystem]

def name : Strategy → String
  | greedyMicro => "GreedyMicro"
  | greedySystem => "GreedySystem"

def side : Strategy → OverlapSide
  | greedyMicro => .micro
  | greedySystem => .shared

end Strategy

/-- **A micro benchmark that may be selected.** -/
structure Candidate where
  key : String
  /-- The functions it covers and no earlier selection does. -/
  nodes : IdSet
  /-- The time that the system benchmark itself spends in all of the functions it covers. -/
  systemTime : Duration

namespace Candidate

/-- The candidate without functions. -/
def start (key : String) : Candidate :=
  ⟨key, .empty, .zero⟩

/-- Adds a function to a candidate unless it is left out.  It is looked up in the graph of the
micro benchmark first, because a function of the system alone is not there.  The sum of the times
has no bound here; an addition of durations that are kept in 64 binary digits of seconds stops
beyond them. -/
def addNode (suite : Suite) (exclusion : Exclusion) (micro? : Option CallGraph)
    (candidate : Candidate) (id : FunctionId) : Candidate :=
  match (micro?.bind (·.function? id)).or (suite.systemGraph.function? id) with
  | none => candidate
  | some f =>
    if exclusion.excludes f none then
      candidate
    else
      let selfTime := ((suite.systemGraph.function? id).map (·.selfTime)).getD .zero
      { candidate with
        nodes := candidate.nodes.insert id
        systemTime := ⟨candidate.systemTime.nanoseconds + selfTime.nanoseconds⟩ }

/-- The candidate of a micro benchmark that covers the given functions, less those that are left
out. -/
def ofNodes (suite : Suite) (exclusion : Exclusion) (key : String) (ids : List FunctionId) :
    Candidate :=
  ids.foldl (addNode suite exclusion (suite.micros.lookup key)) (start key)

def before (a b : Candidate) : Bool :=
  if a.nodes.size = b.nodes.size then a.key < b.key else b.nodes.size < a.nodes.size

/-- The candidate without the functions that another one covers. -/
def without (a b : Candidate) : Candidate :=
  { a with nodes := a.nodes.diff b.nodes }

/-- **Selects candidates** until those that remain cover nothing new.  A selected candidate has the
functions that it covered at that moment. -/
def selectAll (candidates : List Candidate) : List Candidate :=
  match _h : ranked before candidates with
  | [] => []
  | best :: others =>
    if best.nodes.isEmpty then [] else best :: selectAll (others.map (·.without best))
termination_by candidates.length
decreasing_by
  rw [length_of_ranked _h]
  simp

end Candidate

structure Selected where
  key : String
  /-- How many functions it covers that no earlier selection does. -/
  additional : Nat
  /-- The time that the system benchmark itself spends in the functions it covers. -/
  systemTime : Duration
  deriving DecidableEq, Repr

def Candidate.selected (candidate : Candidate) : Selected where
  key := candidate.key
  additional := candidate.nodes.size
  systemTime := candidate.systemTime

namespace Suite

def candidates (suite : Suite) (overlap : SuiteOverlap) (strategy : Strategy)
    (exclusion : Exclusion) : List Candidate :=
  overlap.micros.entries.map fun (key, micro) =>
    .ofNodes suite exclusion key (micro.nodes strategy.side).keys

/-- **The micro benchmarks that a strategy selects**, in the order of selection. -/
def select (suite : Suite) (overlap : SuiteOverlap) (strategy : Strategy)
    (exclusion : Exclusion) : List Selected :=
  (Candidate.selectAll (suite.candidates overlap strategy exclusion)).map (·.selected)

end Suite

/-! ## Minimized suites -/

structure LengthMismatch where
  suites : Nat
  overlaps : Nat
  deriving DecidableEq, Repr

def LengthMismatch.message (fault : LengthMismatch) : String :=
  s!"Got {fault.suites} call graph results but {fault.overlaps} overlaps"

inductive MinimizationFault where
  | lengthMismatch (cause : LengthMismatch)
  | missingMicro (key : String)
  deriving DecidableEq, Repr

def MinimizationFault.message : MinimizationFault → String
  | lengthMismatch cause => cause.message
  | missingMicro key => s!"No call graph for selected micro '{key}'"

structure Minimized where
  /-- The suite with the selected micro benchmarks only. -/
  suite : Suite
  selected : List Selected

namespace Suite

def microsOf (suite : Suite) (keys : List String) :
    Except MinimizationFault (SortedMap String CallGraph) :=
  keys.foldlM
    (fun micros key => match suite.micros.lookup key with
      | some micro => .ok (micros.insert key micro)
      | none => .error (.missingMicro key))
    .empty

/-- **Minimizes a suite.** -/
def minimize (suite : Suite) (overlap : SuiteOverlap) (strategy : Strategy)
    (exclusion : Exclusion) : Except MinimizationFault Minimized := do
  let selected := suite.select overlap strategy exclusion
  let micros ← suite.microsOf (selected.map (·.key))
  return { suite := suite.withMicros micros, selected }

/-- Minimizes suites, each with the overlap at the same place. -/
def minimizeAll (suites : List Suite) (overlaps : List SuiteOverlap) (strategy : Strategy)
    (exclusion : Exclusion) : Except MinimizationFault (List Minimized) :=
  if suites.length = overlaps.length then
    (suites.zip overlaps).mapM fun (suite, overlap) => suite.minimize overlap strategy exclusion
  else
    .error (.lengthMismatch ⟨suites.length, overlaps.length⟩)

end Suite

end BenchCover
