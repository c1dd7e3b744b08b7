import BenchCover.Function.Basic
import BenchCover.Number.Binary64

/-!
# Call graphs

A call graph holds functions and the calls between them, both in the order in which they were
added.  No two functions share an id, no two calls join the same functions in the same direction,
and a call joins functions of the graph: all this is part of the type.

* `CallGraph.addFunction` — adds a function; the first one with an id stays.
* `CallGraph.setCall` — adds a call or replaces the call that joins the same functions.
* `CallGraph.callees`, `CallGraph.callers` — the neighbours of a function, the latest new call
  first.

The two lists are what there is to say about a graph.  How a graph is kept, with an index of its ids
and lists of neighbours at its nodes, is `IndexedGraph`.  `IndexedGraph.Represents` relates the two:
they are changed alike and answer alike.
-/

namespace BenchCover

/-- A call from one function to another, with the time it took. -/
structure Call where
  caller : FunctionId
  callee : FunctionId
  time : Duration
  deriving DecidableEq, Repr

namespace Call

def ends (call : Call) : FunctionId × FunctionId :=
  (call.caller, call.callee)

def weight (call : Call) : Binary64 :=
  Binary64.ofNat call.time.nanoseconds

end Call

inductive CallEnd where
  | caller
  | callee
  deriving DecidableEq, Repr

def CallEnd.role : CallEnd → String
  | caller => "from"
  | callee => "to"

/-- An end of a call that is no function of the graph. -/
structure MissingEnd where
  which : CallEnd
  id : FunctionId
  deriving DecidableEq, Repr

def MissingEnd.message (fault : MissingEnd) : String :=
  s!"Call endpoint {fault.which.role} (id {fault.id}) is not a node of the graph"

/-- **A call graph.** -/
structure CallGraph where
  functions : List Function
  calls : List Call
  ids_nodup : (functions.map (·.id)).Nodup
  ends_nodup : (calls.map (·.ends)).Nodup
  caller_mem : ∀ call ∈ calls, call.caller ∈ functions.map (·.id)
  callee_mem : ∀ call ∈ calls, call.callee ∈ functions.map (·.id)

namespace CallGraph

/-- The graph without functions. -/
def empty : CallGraph where
  functions := []
  calls := []
  ids_nodup := .nil
  ends_nodup := .nil
  caller_mem := by simp
  callee_mem := by simp

instance : Inhabited CallGraph := ⟨empty⟩

/-- The ids of the functions, in the order of the functions. -/
def ids (g : CallGraph) : List FunctionId :=
  g.functions.map (·.id)

def contains (g : CallGraph) (id : FunctionId) : Bool :=
  id ∈ g.ids

def function? (g : CallGraph) (id : FunctionId) : Option Function :=
  g.functions.find? (·.id = id)

def call? (g : CallGraph) (caller callee : FunctionId) : Option Call :=
  g.calls.find? (·.ends = (caller, callee))

/-! ## Changing a graph -/

/-- **Adds a function**, unless the graph has one with this id. -/
def addFunction (g : CallGraph) (f : Function) : CallGraph :=
  if present : f.id ∈ g.ids then
    g
  else
    { functions := g.functions ++ [f]
      calls := g.calls
      ids_nodup := by
        rw [List.map_append, List.nodup_append]
        refine ⟨g.ids_nodup, by simp, fun a mem b new same => present ?_⟩
        rw [List.map_singleton, List.mem_singleton] at new
        rwa [← new, ← same]
      ends_nodup := g.ends_nodup
      caller_mem := fun call mem => by
        rw [List.map_append]
        exact List.mem_append_left _ (g.caller_mem call mem)
      callee_mem := fun call mem => by
        rw [List.map_append]
        exact List.mem_append_left _ (g.callee_mem call mem) }

/-- Calls with a new one, which takes the place of the one that joins the same functions, and is
last if there is none. -/
def setCallIn (call : Call) : List Call → List Call
  | [] => [call]
  | other :: rest =>
    if other.ends = call.ends then call :: rest else other :: setCallIn call rest

theorem mem_setCallIn {call other : Call} {calls : List Call}
    (h : other ∈ setCallIn call calls) : other = call ∨ other ∈ calls := by
  fun_induction setCallIn call calls with
  | case1 => simpa using h
  | case2 => simp_all; grind
  | case3 => simp_all; grind

theorem mem_ends_setCallIn {call : Call} {ends : FunctionId × FunctionId} {calls : List Call}
    (h : ends ∈ (setCallIn call calls).map (·.ends)) :
    ends = call.ends ∨ ends ∈ calls.map (·.ends) := by
  obtain ⟨other, mem, rfl⟩ := List.mem_map.1 h
  rcases mem_setCallIn mem with rfl | mem
  · exact .inl rfl
  · exact .inr (List.mem_map_of_mem mem)

theorem ends_nodup_setCallIn (call : Call) {calls : List Call}
    (nodup : (calls.map (·.ends)).Nodup) : ((setCallIn call calls).map (·.ends)).Nodup := by
  fun_induction setCallIn call calls with
  | case1 => simp
  | case2 other rest same => simpa [same] using nodup
  | case3 other rest differ ih =>
    rw [List.map_cons, List.nodup_cons] at nodup ⊢
    refine ⟨fun mem => ?_, ih nodup.2⟩
    rcases mem_ends_setCallIn mem with same | mem
    · exact differ same
    · exact nodup.1 mem

/-- **Sets the call between two functions.**  Both must be in the graph, which is checked for the
caller first. -/
def setCall (g : CallGraph) (call : Call) : Except MissingEnd CallGraph :=
  if caller : call.caller ∈ g.ids then
    if callee : call.callee ∈ g.ids then
      .ok
        { functions := g.functions
          calls := setCallIn call g.calls
          ids_nodup := g.ids_nodup
          ends_nodup := ends_nodup_setCallIn call g.ends_nodup
          caller_mem := fun other mem => by
            rcases mem_setCallIn mem with rfl | mem
            · exact caller
            · exact g.caller_mem other mem
          callee_mem := fun other mem => by
            rcases mem_setCallIn mem with rfl | mem
            · exact callee
            · exact g.callee_mem other mem }
    else
      .error ⟨.callee, call.callee⟩
  else
    .error ⟨.caller, call.caller⟩

/-! ## Neighbours -/

/-- The calls that a function makes, the latest new one first. -/
def callsFrom (g : CallGraph) (id : FunctionId) : List Call :=
  g.calls.reverse.filter (·.caller = id)

/-- The calls that a function receives, the latest new one first. -/
def callsTo (g : CallGraph) (id : FunctionId) : List Call :=
  g.calls.reverse.filter (·.callee = id)

def callees (g : CallGraph) (id : FunctionId) : List FunctionId :=
  (g.callsFrom id).map (·.callee)

def callers (g : CallGraph) (id : FunctionId) : List FunctionId :=
  (g.callsTo id).map (·.caller)

/-- The functions that nothing calls, in the order of the functions. -/
def roots (g : CallGraph) : List FunctionId :=
  g.ids.filter fun id => (g.callers id).isEmpty

/-! ## Laws -/

/-- One function calls another exactly if a call joins them. -/
theorem mem_callees {g : CallGraph} {a b : FunctionId} :
    b ∈ g.callees a ↔ ∃ call ∈ g.calls, call.ends = (a, b) := by
  simp [callees, callsFrom, Call.ends, and_assoc]

/-- The two views of a call agree. -/
theorem mem_callers {g : CallGraph} {a b : FunctionId} :
    a ∈ g.callers b ↔ b ∈ g.callees a := by
  simp only [callers, callsTo, callees, callsFrom, List.mem_map, List.mem_filter,
    List.mem_reverse, decide_eq_true_eq]
  constructor <;> rintro ⟨call, ⟨mem, rfl⟩, rfl⟩ <;> exact ⟨call, ⟨mem, rfl⟩, rfl⟩

theorem mem_ids_of_mem_callees {g : CallGraph} {a b : FunctionId} (h : b ∈ g.callees a) :
    b ∈ g.ids := by
  obtain ⟨call, mem, joins⟩ := mem_callees.1 h
  have := g.callee_mem call mem
  rwa [show call.callee = b from congrArg Prod.snd joins] at this

end CallGraph

end BenchCover
