import BenchCover.Graph.Basic
import BenchCover.Graph.Digraph
import BenchCover.Sorted.Map

/-!
# Call graphs with an index

A call graph is kept as a directed graph with functions at its nodes and calls on its edges, and an
index from the ids of the functions to the numbers of their nodes.  Functions are asked for by id,
so that every question goes through the index first.

* `IndexedGraph.addFunction` — adds a function and answers whether its id is new.
* `IndexedGraph.setCall` — sets the call between two functions; the index is asked for the caller
  first.
* `IndexedGraph.function?`, `call?`, `callees`, `callers`, `callsFrom` — what is asked.

Operations change a graph in place and may fail on the way.  What they are when they are run tells
the answer together with the graph that they leave behind, also when they fail.

`CallGraph` has the same functions and calls in two lists, without numbers, adjacency lists and an
index.
-/

namespace BenchCover

/-- **A call graph with an index.** -/
structure IndexedGraph where
  graph : Digraph Function Call
  /-- The numbers of the nodes, by the ids of their functions.  The order of the index is never
  seen. -/
  index : SortedMap FunctionId Nat

namespace IndexedGraph

/-- The graph without functions. -/
def empty : IndexedGraph := ⟨.empty, .empty⟩

/-! ## Changing a graph -/

/-- **Adds a function**, unless there is one with its id. -/
def addFunction (f : Function) : StateM IndexedGraph Bool := do
  let g ← get
  if g.index.contains f.id then
    return false
  let (number, graph) := g.graph.addNode f
  set ({ graph, index := g.index.insert f.id number } : IndexedGraph)
  return true

/-- The number of the node of an end of a call. -/
def nodeNumber (which : CallEnd) (id : FunctionId) :
    ExceptT MissingEnd (StateM IndexedGraph) Nat := do
  match (← get).index.lookup id with
  | some number => return number
  | none => throw ⟨which, id⟩

/-- **Sets the call between two functions.** -/
def setCall (call : Call) : ExceptT MissingEnd (StateM IndexedGraph) Unit := do
  let source ← nodeNumber .caller call.caller
  let target ← nodeNumber .callee call.callee
  modify fun g => { g with graph := g.graph.updateEdge source target call }

def addCall (caller callee : FunctionId) (time : Duration) :
    ExceptT MissingEnd (StateM IndexedGraph) Unit :=
  setCall { caller, callee, time }

/-! ## Asking a graph

A number without a node or an edge gives nothing.
-/

variable (g : IndexedGraph)

/-- All functions, in the order in which they were added. -/
def functions : List Function :=
  g.graph.nodeWeights

/-- All calls, in the order in which they were new. -/
def calls : List Call :=
  g.graph.edgeWeights

def contains (id : FunctionId) : Bool :=
  g.index.contains id

def function? (id : FunctionId) : Option Function := do
  let number ← g.index.lookup id
  let node ← g.graph.nodes[number]?
  return node.weight

def call? (caller callee : FunctionId) : Option Call := do
  let source ← g.index.lookup caller
  let target ← g.index.lookup callee
  let number ← g.graph.findEdge? source target
  let edge ← g.graph.edges[number]?
  return edge.weight

/-- The ids of the functions at the other ends of the calls of a function. -/
def neighbors (id : FunctionId) (direction : Digraph.Direction) : List FunctionId :=
  match g.index.lookup id with
  | none => []
  | some number =>
    (g.graph.neighbors number direction).filterMap fun other =>
      g.graph.nodes[other]?.map (·.weight.id)

/-- The functions that a function calls. -/
def callees (id : FunctionId) : List FunctionId :=
  g.neighbors id .outgoing

/-- The functions that call a function. -/
def callers (id : FunctionId) : List FunctionId :=
  g.neighbors id .incoming

/-- The calls that a function makes. -/
def callsFrom (id : FunctionId) : List Call :=
  match g.index.lookup id with
  | none => []
  | some number => (g.graph.edgesAt number .outgoing).map (·.weight)

end IndexedGraph

end BenchCover
