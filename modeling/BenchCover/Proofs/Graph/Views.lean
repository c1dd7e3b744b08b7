import BenchCover.Graph.Basic
import BenchCover.Proofs.Distinct

/-!
# Views of the calls

The calls of a graph are one list that is looked at in several ways: the call between two functions,
the calls that a function makes or receives, and the functions at their other ends.  As the list
repeats no ends, every way finds the same call between two functions, and finds it once.  Each of
the lemmas here comes down to `CallGraph.filter_ends`.
-/

namespace BenchCover

namespace CallGraph

variable {g : CallGraph} {a b : FunctionId} {call : Call}

lemma filter_ends (g : CallGraph) (a b : FunctionId) :
    g.calls.reverse.filter (·.ends = (a, b)) = (g.call? a b).toList := by
  rw [List.filter_reverse, filter_of_nodup_map g.ends_nodup, call?]
  cases g.calls.find? (·.ends = (a, b)) <;> rfl

/-- **Looking up two ends** finds the one call that has them. -/
lemma call?_eq_some_iff : g.call? a b = some call ↔ call ∈ g.calls ∧ call.ends = (a, b) := by
  rw [← Option.mem_toList, ← filter_ends]
  simp

/-! ## The calls of a function -/

/-- Of the calls that a function makes, one at most goes to a given function: the call between the
two. -/
lemma filter_callsFrom (g : CallGraph) (a b : FunctionId) :
    (g.callsFrom a).filter (·.callee = b) = (g.call? a b).toList := by
  rw [← filter_ends, callsFrom, List.filter_filter]
  exact List.filter_congr fun call _ => by simp [Call.ends, Bool.and_comm]

/-- Of the calls that a function receives, one at most comes from a given function: the call between
the two. -/
lemma filter_callsTo (g : CallGraph) (a b : FunctionId) :
    (g.callsTo b).filter (·.caller = a) = (g.call? a b).toList := by
  rw [← filter_ends, callsTo, List.filter_filter]
  exact List.filter_congr fun call _ => by simp [Call.ends]

lemma call?_eq_some_iff_callsFrom :
    g.call? a b = some call ↔ call ∈ g.callsFrom a ∧ call.callee = b := by
  rw [← Option.mem_toList, ← filter_callsFrom]
  simp

lemma isSome_call?_iff : (g.call? a b).isSome ↔ ∃ call ∈ g.callsFrom a, call.callee = b := by
  simp [Option.isSome_iff_exists, call?_eq_some_iff_callsFrom]

/-- A call is listed at its caller exactly if it is found by its ends. -/
lemma mem_callsFrom_iff_call? :
    call ∈ g.callsFrom a ↔ call.caller = a ∧ g.call? a call.callee = some call := by
  rw [call?_eq_some_iff]
  simp [callsFrom, Call.ends, and_comm]

/-! ## The neighbours of a function -/

lemma count_callees (g : CallGraph) (a b : FunctionId) :
    (g.callees a).count b = (g.call? a b).toList.length := by
  rw [← filter_callsFrom, callees, List.count_eq_countP, List.countP_map,
    List.countP_eq_length_filter]
  rfl

lemma count_callers (g : CallGraph) (a b : FunctionId) :
    (g.callers b).count a = (g.call? a b).toList.length := by
  rw [← filter_callsTo, callers, List.count_eq_countP, List.countP_map,
    List.countP_eq_length_filter]
  rfl

lemma callees_nodup (g : CallGraph) (a : FunctionId) : (g.callees a).Nodup :=
  List.nodup_iff_count_le_one.2 fun b => by
    rw [count_callees]
    exact Option.length_toList_le

lemma callers_nodup (g : CallGraph) (b : FunctionId) : (g.callers b).Nodup :=
  List.nodup_iff_count_le_one.2 fun a => by
    rw [count_callers]
    exact Option.length_toList_le

lemma callees_eq_ends (g : CallGraph) (a : FunctionId) :
    g.callees a = ((g.calls.map (·.ends)).reverse.filter (·.1 = a)).map (·.2) := by
  rw [← List.map_reverse, List.filter_map, List.map_map]
  rfl

lemma callers_eq_ends (g : CallGraph) (b : FunctionId) :
    g.callers b = ((g.calls.map (·.ends)).reverse.filter (·.2 = b)).map (·.1) := by
  rw [← List.map_reverse, List.filter_map, List.map_map]
  rfl

end CallGraph

end BenchCover
