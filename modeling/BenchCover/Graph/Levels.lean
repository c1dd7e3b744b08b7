import BenchCover.Function.Exclusion
import BenchCover.Graph.Walk
import BenchCover.Sorted.Map

/-!
# Levels

The level of a function is its least distance from any of a list of roots.  Functions that an
exclusion leaves out are walked through, so that they count for the depth, but they are given no
level.
-/

namespace BenchCover

/-- **The levels of the functions of a graph.** -/
structure Levels where
  /-- One more than the largest distance from a root to a function it reaches, and `0` if no root
  is in the graph. -/
  depth : Nat
  /-- The functions that have a level, by id. -/
  recorded : SortedMap FunctionId Nat

namespace Levels

def level? (levels : Levels) (id : FunctionId) : Option Nat :=
  levels.recorded.lookup id

/-- Puts functions into the lists of their levels, each at the end of its list. -/
def spread (depth : Nat) (recorded : List (FunctionId × Nat)) : List (List FunctionId) :=
  recorded.foldl (fun lists (id, level) => lists.modify level (· ++ [id])) (.replicate depth [])

/-- **The functions at each level** below the depth, in the order of their ids. -/
def slices (levels : Levels) : List (List FunctionId) :=
  (spread levels.depth levels.recorded.entries).map (·.mergeSort fun a b => decide (a ≤ b))

/-- The slices by level, also those without functions. -/
def byLevel (levels : Levels) : SortedMap Nat (List FunctionId) :=
  .ofList (levels.slices.zipIdx.map fun (ids, level) => (level, ids))

/-- Takes one visit into account: the depth covers it, and the function, unless it is left out,
gets the distance as its level if it has no smaller one. -/
def record (exclusion : Exclusion) (levels : Levels) (visit : Function × Nat) : Levels :=
  let (f, distance) := visit
  { depth := max levels.depth (distance + 1)
    recorded :=
      if exclusion.excludes f (some distance) then levels.recorded
      else levels.recorded.upsert f.id fun
        | none => distance
        | some level => min level distance }

end Levels

/-- **The levels of a graph** below a list of roots. -/
def CallGraph.levels (g : CallGraph) (roots : List FunctionId) (exclusion : Exclusion) : Levels :=
  (roots.flatMap g.visits).foldl (Levels.record exclusion) ⟨0, .empty⟩

end BenchCover
