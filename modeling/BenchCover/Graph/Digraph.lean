/-!
# Directed graphs with adjacency lists

Nodes and edges carry weights and are told by numbers, in the order in which they were added.  Each
node keeps two lists of the numbers of its edges, one of those that start at it and one of those
that end at it.  A new edge goes in front of the lists of its two ends.

* `Digraph.findEdge?` — looks for an edge in the list of the node that it starts at.
* `Digraph.updateEdge` — gives the edge between two nodes a weight.  The edge that is there keeps
  its number and its place in the lists, and a new one is added otherwise.
* `Digraph.edgesAt`, `Digraph.neighbors` — what one of the lists of a node says.

Nothing here keeps the lists and the edges in step but the operations themselves.
-/

namespace BenchCover

namespace Digraph

inductive Direction where
  | outgoing
  | incoming
  deriving DecidableEq, Repr

/-- A node, with the numbers of its edges. -/
structure Node (ν : Type) where
  weight : ν
  outgoing : List Nat
  incoming : List Nat
  deriving DecidableEq, Repr

/-- An edge, with the numbers of the nodes that it joins. -/
structure Edge (ω : Type) where
  source : Nat
  target : Nat
  weight : ω
  deriving DecidableEq, Repr

def Node.numbers {ν : Type} (node : Node ν) : Direction → List Nat
  | .outgoing => node.outgoing
  | .incoming => node.incoming

namespace Edge

variable {ω : Type}

/-- The end of an edge at which the edge goes in a direction. -/
def near (edge : Edge ω) : Direction → Nat
  | .outgoing => edge.source
  | .incoming => edge.target

/-- The other end. -/
def far (edge : Edge ω) : Direction → Nat
  | .outgoing => edge.target
  | .incoming => edge.source

def ends (edge : Edge ω) : Nat × Nat :=
  (edge.source, edge.target)

def withWeight (weight : ω) (edge : Edge ω) : Edge ω :=
  { edge with weight }

end Edge

end Digraph

/-- **A directed graph.** -/
structure Digraph (ν ω : Type) where
  nodes : List (Digraph.Node ν)
  edges : List (Digraph.Edge ω)
  deriving DecidableEq, Repr

namespace Digraph

variable {ν ω : Type}

/-- The graph without nodes. -/
def empty : Digraph ν ω := ⟨[], []⟩

/-- The weights of the nodes, in the order in which these were added. -/
def nodeWeights (g : Digraph ν ω) : List ν :=
  g.nodes.map (·.weight)

/-- The weights of the edges, in the order in which these were added. -/
def edgeWeights (g : Digraph ν ω) : List ω :=
  g.edges.map (·.weight)

/-! ## Changing a graph -/

/-- The number of a new node, and the graph with the node. -/
def addNode (g : Digraph ν ω) (weight : ν) : Nat × Digraph ν ω :=
  (g.nodes.length, { g with nodes := g.nodes ++ [⟨weight, [], []⟩] })

/-- Puts a number in front of the list of a node. -/
def Node.link (direction : Direction) (number : Nat) (node : Node ν) : Node ν :=
  match direction with
  | .outgoing => { node with outgoing := number :: node.outgoing }
  | .incoming => { node with incoming := number :: node.incoming }

/-- Adds an edge between two nodes of the graph, whether there is one or not. -/
def addEdge (g : Digraph ν ω) (source target : Nat) (weight : ω) : Digraph ν ω where
  nodes := (g.nodes.modify source (Node.link .outgoing g.edges.length)).modify target
    (Node.link .incoming g.edges.length)
  edges := g.edges ++ [⟨source, target, weight⟩]

/-- The number of an edge from one node to another. -/
def findEdge? (g : Digraph ν ω) (source target : Nat) : Option Nat := do
  let node ← g.nodes[source]?
  node.outgoing.find? fun number => g.edges[number]?.any (·.target == target)

/-- **Gives the edge between two nodes a weight.** -/
def updateEdge (g : Digraph ν ω) (source target : Nat) (weight : ω) : Digraph ν ω :=
  match g.findEdge? source target with
  | some number => { g with edges := g.edges.modify number (Edge.withWeight weight) }
  | none => g.addEdge source target weight

/-! ## Neighbours -/

/-- **The edges at a node** in one direction, the latest new one first. -/
def edgesAt (g : Digraph ν ω) (number : Nat) (direction : Direction) : List (Edge ω) :=
  match g.nodes[number]? with
  | none => []
  | some node => (node.numbers direction).filterMap (g.edges[·]?)

/-- The nodes at the other ends of these edges. -/
def neighbors (g : Digraph ν ω) (number : Nat) (direction : Direction) : List Nat :=
  (g.edgesAt number direction).map (·.far direction)

end Digraph

end BenchCover
