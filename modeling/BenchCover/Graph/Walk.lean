import BenchCover.Graph.Basic

/-!
# Breadth-first walks

A walk visits the functions that can be reached from a start, nearest first, and tells each visit
the distance from the start.  The visitor keeps a state of its own and may stop the walk.

The walk carries the functions it has not met yet.  Meeting a function moves it from there into
the queue, and every visit takes one out of the queue, so that the two together get smaller with
each visit: this is `length_meet`, and it is why a walk ends on every graph.
-/

namespace BenchCover

/-- What a visitor answers: its new state, and whether the walk goes on. -/
inductive Verdict (σ : Type) where
  | goOn (state : σ)
  | stop (state : σ)

/-- A visitor is told its state so far, a function and the distance of the function. -/
abbrev Visitor (σ : Type) := σ → Function → (distance : Nat) → Verdict σ

namespace CallGraph

/-- Of the neighbours of a visited function, those that are met for the first time, in order, and
the functions that stay unmet. -/
def meet : (neighbours unmet : List FunctionId) → List FunctionId × List FunctionId
  | [], unmet => ([], unmet)
  | id :: rest, unmet =>
    if id ∈ unmet then
      let found := meet rest (unmet.erase id)
      (id :: found.1, found.2)
    else
      meet rest unmet

/-- No function is lost or doubled when neighbours are met. -/
theorem length_meet (neighbours unmet : List FunctionId) :
    (meet neighbours unmet).1.length + (meet neighbours unmet).2.length = unmet.length := by
  induction neighbours generalizing unmet with
  | nil => simp [meet]
  | cons id rest ih =>
    rw [meet]
    split
    · rename_i mem
      have pos := List.length_pos_of_mem mem
      have total := ih (unmet.erase id)
      rw [List.length_erase_of_mem mem] at total
      simp only [List.length_cons]
      omega
    · exact ih unmet

/-- Visits the functions in the queue and then those that are met on the way.  The result is the
last state and the function at which the visitor stopped. -/
def walkFrom {σ : Type} (g : CallGraph) (visit : Visitor σ) (unmet : List FunctionId) (state : σ)
    (queue : List (FunctionId × Nat)) : σ × Option FunctionId :=
  match queue with
  | [] => (state, none)
  | (id, distance) :: queue =>
    match g.function? id with
    | none => walkFrom g visit unmet state queue
    | some f =>
      match visit state f distance with
      | .stop state => (state, some id)
      | .goOn state =>
        let found := meet (g.callees id) unmet
        walkFrom g visit found.2 state (queue ++ found.1.map fun id => (id, distance + 1))
termination_by queue.length + unmet.length
decreasing_by
  · simp
  · have := length_meet (g.callees id) unmet
    simp only [List.length_append, List.length_map, List.length_cons]
    omega

/-- **Walks breadth first from a start.**  A start that is not in the graph is not visited, and
neither is anything else. -/
def walk {σ : Type} (g : CallGraph) (start : FunctionId) (visit : Visitor σ) (state : σ) :
    σ × Option FunctionId :=
  if g.contains start then walkFrom g visit (g.ids.erase start) state [(start, 0)]
  else (state, none)

/-- All visits of a walk that is not stopped: the functions with their distances, in order. -/
def visits (g : CallGraph) (start : FunctionId) : List (Function × Nat) :=
  (g.walk start (fun visited f distance => .goOn ((f, distance) :: visited)) []).1.reverse

/-- The functions that can be reached from a start, in the order of the walk. -/
def reachable (g : CallGraph) (start : FunctionId) : List Function :=
  (g.visits start).map (·.1)

/-! ## The reachable part of a graph -/

/-- Sets a call if its ends are in the graph, and leaves the graph alone otherwise. -/
def withCall (g : CallGraph) (call : Call) : CallGraph :=
  match g.setCall call with
  | .ok g => g
  | .error _ => g

/-- **The part of a graph that can be reached from a start**: the functions in the order of the
walk, and with each of them all the calls that it makes. -/
def reachableSubgraph (g : CallGraph) (start : FunctionId) : CallGraph :=
  let reached := g.reachable start
  let calls := reached.flatMap fun f => g.callsFrom f.id
  calls.foldl withCall (reached.foldl addFunction empty)

end CallGraph

end BenchCover
