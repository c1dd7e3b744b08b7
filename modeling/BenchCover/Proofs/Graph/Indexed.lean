import BenchCover.Graph.Indexed
import BenchCover.Proofs.Graph.Change
import BenchCover.Proofs.Graph.Digraph
import BenchCover.Proofs.Graph.Distance
import BenchCover.Proofs.Graph.Views

/-!
# Indexed graphs and call graphs

An indexed graph finds functions through its index, and calls through adjacency lists.  Here every
answer is shown to be that of a call graph with the same functions and calls.

**In step.**  `IndexedGraph.Sound` says what holds the parts together: the index finds exactly the
nodes, by the ids of their functions, and an edge joins the nodes of the functions that its call
joins.

**Operations.**  `IndexedGraph.Represents` relates a graph to the call graph with its functions and
calls.  The empty graphs are related, and an operation that is accepted keeps that
(`Represents.exists_run_addFunction`, `Represents.exists_run_setCall`).  One that is refused leaves
every part as it is (`Represents.run_addFunction_of_mem`, `Represents.run_setCall_of_error`).

**Answers.**  What is asked through the index is answered alike: `Represents.function?_eq` and what
follows it.
-/

namespace BenchCover

open BenchCover.Digraph (Direction Edge)

namespace Call

/-- The end of a call at which the call goes in a direction. -/
def near (call : Call) : Direction → FunctionId
  | .outgoing => call.caller
  | .incoming => call.callee

/-- The other end. -/
def far (call : Call) : Direction → FunctionId
  | .outgoing => call.callee
  | .incoming => call.caller

end Call

namespace CallGraph

/-- A call with known ends stays at the place of the one that has them. -/
lemma setCallIn_of_getElem? {call other : Call} {calls : List Call} {place : ℕ}
    (hnodup : (calls.map (·.ends)).Nodup) (hother : calls[place]? = some other)
    (hends : other.ends = call.ends) : setCallIn call calls = calls.set place call := by
  induction calls generalizing place with
  | nil => simp at hother
  | cons first rest ih =>
    rw [List.map_cons, List.nodup_cons] at hnodup
    cases place with
    | zero =>
      obtain rfl : first = other := by simpa using hother
      rw [setCallIn, if_pos hends, List.set_cons_zero]
    | succ place =>
      rw [List.getElem?_cons_succ] at hother
      have hne : first.ends ≠ call.ends := fun hsame =>
        hnodup.1 (List.mem_map.2 ⟨other, List.mem_of_getElem? hother, hends.trans hsame.symm⟩)
      rw [setCallIn, if_neg hne, List.set_cons_succ, ih hnodup.2 hother]

end CallGraph

namespace IndexedGraph

variable {g : IndexedGraph} {view : CallGraph} {f : Function} {call : Call}
  {id id' a b : FunctionId} {number source target : ℕ} {edge : Edge Call}

/-! ## In step -/

/-- **The parts of a graph are in step.** -/
structure Sound (g : IndexedGraph) : Prop where
  linked : g.graph.Linked
  /-- The index finds the nodes by the ids of their functions, and nothing else. -/
  index_iff : ∀ id number,
    g.index.lookup id = some number ↔ (g.functions.map (·.id))[number]? = some id
  /-- An edge joins the nodes of the functions that its call joins. -/
  joins : ∀ edge ∈ g.graph.edges, ∀ direction,
    g.index.lookup (edge.weight.near direction) = some (edge.near direction)
  /-- No two edges join the same nodes in the same direction. -/
  ends_nodup : (g.graph.edges.map Edge.ends).Nodup

namespace Sound

/-- A node belongs to one id. -/
lemma id_unique (h : Sound g) (hid : g.index.lookup id = some number)
    (hid' : g.index.lookup id' = some number) : id = id' :=
  Option.some.inj (((h.index_iff id number).1 hid).symm.trans ((h.index_iff id' number).1 hid'))

lemma lt_of_lookup (h : Sound g) (hid : g.index.lookup id = some number) :
    number < g.graph.nodes.length := by
  have hlt := (List.getElem?_eq_some_iff.1 ((h.index_iff id number).1 hid)).1
  simpa [functions, Digraph.nodeWeights] using hlt

lemma exists_lookup_iff (h : Sound g) :
    (∃ number, g.index.lookup id = some number) ↔ id ∈ g.functions.map (·.id) := by
  rw [List.mem_iff_getElem?]
  exact exists_congr fun number => h.index_iff id number

/-- The function of a node. -/
lemma exists_node (h : Sound g) (hid : g.index.lookup id = some number) :
    ∃ node, g.graph.nodes[number]? = some node ∧ node.weight.id = id := by
  have hweight := (h.index_iff id number).1 hid
  simpa [functions, Digraph.nodeWeights] using hweight

/-- An edge is at a node exactly if its call is at the function of the node. -/
lemma near_eq_iff (h : Sound g) (hedge : edge ∈ g.graph.edges)
    (hid : g.index.lookup id = some number) (direction : Direction) :
    edge.near direction = number ↔ edge.weight.near direction = id := by
  have hnear := h.joins edge hedge direction
  constructor
  · intro hsame
    exact h.id_unique (hsame ▸ hnear) hid
  · intro hsame
    rw [hsame, hid] at hnear
    exact (Option.some.inj hnear).symm

/-- The node at the other end of an edge has the function at the other end of the call. -/
lemma exists_far (h : Sound g) (hedge : edge ∈ g.graph.edges) (direction : Direction) :
    ∃ node, g.graph.nodes[edge.far direction]? = some node ∧
      node.weight.id = edge.weight.far direction := by
  cases direction with
  | outgoing => exact h.exists_node (h.joins edge hedge .incoming)
  | incoming => exact h.exists_node (h.joins edge hedge .outgoing)

/-- The edges between two nodes are those whose calls join the functions of the nodes. -/
lemma ends_eq_iff (h : Sound g) (hedge : edge ∈ g.graph.edges)
    (ha : g.index.lookup a = some source) (hb : g.index.lookup b = some target) :
    edge.ends = (source, target) ↔ edge.weight.ends = (a, b) := by
  rw [Edge.ends, Call.ends, Prod.mk.injEq, Prod.mk.injEq]
  exact and_congr (h.near_eq_iff hedge ha .outgoing) (h.near_eq_iff hedge hb .incoming)

/-- What the list of a node says, in terms of calls. -/
lemma weights_edgesAt (h : Sound g) (hid : g.index.lookup id = some number)
    (direction : Direction) :
    (g.graph.edgesAt number direction).map (·.weight)
      = g.calls.reverse.filter (·.near direction = id) := by
  rw [h.linked.edgesAt_eq (h.lt_of_lookup hid), calls, Digraph.edgeWeights, ← List.map_reverse,
    List.filter_map]
  congr 1
  refine List.filter_congr fun edge hedge => ?_
  simp [h.near_eq_iff (List.mem_reverse.1 hedge) hid]

/-- An id that is not in the index has no calls. -/
lemma filter_near_eq_nil (h : Sound g) (hid : g.index.lookup id = none)
    (direction : Direction) : g.calls.reverse.filter (·.near direction = id) = [] := by
  rw [List.filter_eq_nil_iff]
  intro call hcall hnear
  obtain ⟨edge, hedge, rfl⟩ := List.mem_map.1 (List.mem_reverse.1 hcall)
  have hfound := h.joins edge hedge direction
  rw [of_decide_eq_true hnear, hid] at hfound
  cases hfound

/-- What a list of neighbours says, in terms of calls. -/
lemma neighbors_eq (h : Sound g) (hid : g.index.lookup id = some number)
    (direction : Direction) :
    g.neighbors id direction
      = (g.calls.reverse.filter (·.near direction = id)).map (·.far direction) := by
  rw [← h.weights_edgesAt hid direction]
  simp only [neighbors, hid, Digraph.neighbors, List.filterMap_map, List.map_map]
  rw [← List.filterMap_eq_map]
  refine List.filterMap_congr fun edge hedge => ?_
  rw [h.linked.edgesAt_eq (h.lt_of_lookup hid)] at hedge
  obtain ⟨node, hnode, hweight⟩ :=
    h.exists_far (List.mem_reverse.1 (List.mem_filter.1 hedge).1) direction
  simp [hnode, hweight]

end Sound

/-! ## Call graphs -/

/-- **A graph with the functions and the calls of a call graph**, and all its parts in step. -/
structure Represents (g : IndexedGraph) (view : CallGraph) : Prop extends Sound g where
  functions_eq : g.functions = view.functions
  calls_eq : g.calls = view.calls

lemma represents_empty : Represents empty CallGraph.empty where
  linked := Digraph.linked_empty
  index_iff id number := by
    simp [empty, functions, Digraph.empty, Digraph.nodeWeights, SortedMap.lookup, SortedMap.empty,
      SortedMap.lookupEntry]
  joins _ hedge := by simp [empty, Digraph.empty] at hedge
  ends_nodup := .nil
  functions_eq := rfl
  calls_eq := rfl

namespace Represents

lemma ids_eq (h : Represents g view) : g.functions.map (·.id) = view.ids := by
  rw [h.functions_eq, CallGraph.ids]

lemma exists_lookup_iff (h : Represents g view) :
    (∃ number, g.index.lookup id = some number) ↔ id ∈ view.ids := by
  rw [h.toSound.exists_lookup_iff, h.ids_eq]

lemma lookup_eq_none (h : Represents g view) (hid : id ∉ view.ids) : g.index.lookup id = none := by
  rw [Option.eq_none_iff_forall_ne_some]
  exact fun number hnumber => hid (h.exists_lookup_iff.1 ⟨number, hnumber⟩)

lemma contains_eq (h : Represents g view) (id : FunctionId) : g.contains id = view.contains id := by
  rw [Bool.eq_iff_iff, contains, SortedMap.contains, Option.isSome_iff_exists,
    h.exists_lookup_iff, CallGraph.contains, decide_eq_true_iff]

end Represents

/-! ### Adding a function -/

lemma run_addFunction (f : Function) (g : IndexedGraph) : (addFunction f).run g
    = if g.index.contains f.id then (false, g)
      else (true, ⟨(g.graph.addNode f).2, g.index.insert f.id (g.graph.addNode f).1⟩) := by
  simp only [addFunction, StateT.run_bind, StateT.run_get, pure_bind]
  split <;> rfl

/-- The parts stay in step with one function more. -/
lemma Sound.addNode (h : Sound g) (hnew : f.id ∉ g.functions.map (·.id)) :
    Sound ⟨(g.graph.addNode f).2, g.index.insert f.id (g.graph.addNode f).1⟩ where
  linked := h.linked.addNode f
  index_iff id number := by
    have hlength : (g.graph.addNode f).1 = (g.functions.map (·.id)).length := by
      simp [Digraph.addNode, functions, Digraph.nodeWeights]
    have hids : (g.graph.addNode f).2.nodeWeights.map (·.id)
        = g.functions.map (·.id) ++ [f.id] := by
      rw [Digraph.nodeWeights_addNode, List.map_append, List.map_singleton, functions]
    rw [functions, hids, getElem?_concat_eq_some_iff, SortedMap.lookup_insert, hlength,
      ← h.index_iff]
    by_cases hid : f.id = id
    · have hunknown : g.index.lookup id ≠ some number := fun hknown =>
        hnew (hid ▸ h.exists_lookup_iff.1 ⟨number, hknown⟩)
      simp [hid, hunknown, eq_comm]
    · simp [hid]
  joins edge hedge direction := by
    have hnear := h.joins edge hedge direction
    have hne : f.id ≠ edge.weight.near direction := fun hsame =>
      hnew (hsame ▸ h.exists_lookup_iff.1 ⟨_, hnear⟩)
    rw [SortedMap.lookup_insert, if_neg hne, hnear]
  ends_nodup := h.ends_nodup

/-- A function with a known id is refused, and changes nothing. -/
lemma Represents.run_addFunction_of_mem (h : Represents g view) (hknown : f.id ∈ view.ids) :
    (IndexedGraph.addFunction f).run g = (false, g) := by
  have hcontains : g.index.contains f.id = true := by
    rw [← contains, h.contains_eq, CallGraph.contains, decide_eq_true hknown]
  rw [run_addFunction, if_pos hcontains]

/-- **A function with a new id** is added to both. -/
lemma Represents.exists_run_addFunction (h : Represents g view) (hnew : f.id ∉ view.ids) :
    ∃ next, (IndexedGraph.addFunction f).run g = (true, next) ∧
      Represents next (view.addFunction f) := by
  have hcontains : ¬ g.index.contains f.id = true := by
    rw [← contains, h.contains_eq, CallGraph.contains, decide_eq_false hnew]
    exact Bool.false_ne_true
  refine ⟨_, by rw [run_addFunction, if_neg hcontains], ?_⟩
  exact {
    toSound := h.toSound.addNode (h.ids_eq ▸ hnew)
    functions_eq := by
      rw [functions, Digraph.nodeWeights_addNode, CallGraph.functions_addFunction hnew,
        ← h.functions_eq, functions]
    calls_eq := by
      rw [CallGraph.calls_addFunction, ← h.calls_eq]
      rfl }

/-! ### Setting a call -/

lemma run_nodeNumber (which : CallEnd) (id : FunctionId) (g : IndexedGraph) :
    (nodeNumber which id).run.run g = pure (match g.index.lookup id with
      | some number => .ok number
      | none => .error ⟨which, id⟩, g) := by
  change (match g.index.lookup id with
    | some number => pure number
    | none => throw ⟨which, id⟩ : ExceptT MissingEnd (StateM IndexedGraph) ℕ).run.run g = _
  cases g.index.lookup id <;> rfl

lemma run_setCall (call : Call) (g : IndexedGraph) : (setCall call).run.run g
    = match g.index.lookup call.caller, g.index.lookup call.callee with
      | none, _ => (.error ⟨.caller, call.caller⟩, g)
      | some _, none => (.error ⟨.callee, call.callee⟩, g)
      | some source, some target =>
        (.ok (), { g with graph := g.graph.updateEdge source target call }) := by
  simp only [setCall, ExceptT.run_bind, StateT.run_bind, run_nodeNumber, pure_bind]
  cases g.index.lookup call.caller with
  | none => rfl
  | some source =>
    simp only [StateT.run_bind, run_nodeNumber, pure_bind]
    cases g.index.lookup call.callee <;> rfl

/-- What is answered to a call: the caller is looked up first. -/
lemma answer_setCall (call : Call) (g : IndexedGraph) : ((setCall call).run.run g).1
    = if ¬ g.contains call.caller then .error ⟨.caller, call.caller⟩
      else if ¬ g.contains call.callee then .error ⟨.callee, call.callee⟩ else .ok () := by
  rw [run_setCall, contains, contains, SortedMap.contains, SortedMap.contains]
  cases g.index.lookup call.caller with
  | none => rfl
  | some source => cases g.index.lookup call.callee <;> rfl

/-- An edge is an old one, or it holds the call that is set and joins the two nodes. -/
lemma Sound.mem_updateEdge (h : Sound g) (call : Call) (source target : ℕ)
    (hedge : edge ∈ (g.graph.updateEdge source target call).edges) :
    edge ∈ g.graph.edges ∨ edge.ends = (source, target) ∧ edge.weight = call := by
  rcases Digraph.updateEdge_cases h.linked h.ends_nodup source target call with
    ⟨place, old, hold, hends, hset⟩ | ⟨-, hadded⟩
  · rw [hset, List.modify_eq_set_getElem?, hold] at hedge
    rcases List.mem_or_eq_of_mem_set hedge with hedge | rfl
    · exact Or.inl hedge
    · exact Or.inr ⟨hends, rfl⟩
  · rw [hadded, Digraph.addEdge, List.mem_append, List.mem_singleton] at hedge
    rcases hedge with hedge | rfl
    · exact Or.inl hedge
    · exact Or.inr ⟨rfl, rfl⟩

/-- The parts stay in step when the edge of a call is set. -/
lemma Sound.updateEdge (h : Sound g) (hsource : g.index.lookup call.caller = some source)
    (htarget : g.index.lookup call.callee = some target) :
    Sound { g with graph := g.graph.updateEdge source target call } where
  linked := h.linked.updateEdge h.ends_nodup (h.lt_of_lookup hsource) (h.lt_of_lookup htarget) call
  index_iff id number := by
    rw [functions, Digraph.nodeWeights_updateEdge]
    exact h.index_iff id number
  joins edge hedge direction := by
    rcases h.mem_updateEdge call source target hedge with hold | ⟨hends, rfl⟩
    · exact h.joins edge hold direction
    · obtain ⟨rfl, rfl⟩ := Prod.mk.inj hends
      cases direction with
      | outgoing => exact hsource
      | incoming => exact htarget
  ends_nodup := Digraph.ends_nodup_updateEdge h.linked h.ends_nodup source target call

/-- **An edge that is set** holds the call at the place that the call has in the list of calls. -/
lemma Represents.calls_updateEdge (h : Represents g view)
    (hsource : g.index.lookup call.caller = some source)
    (htarget : g.index.lookup call.callee = some target) :
    (g.graph.updateEdge source target call).edgeWeights = CallGraph.setCallIn call view.calls := by
  rcases Digraph.updateEdge_cases h.linked h.ends_nodup source target call with
    ⟨place, edge, hedge, hends, hset⟩ | ⟨hnew, hadded⟩
  · -- the call of the edge had the ends of the new one
    have hsame : edge.weight.ends = call.ends :=
      (h.ends_eq_iff (List.mem_of_getElem? hedge) hsource htarget).1 hends
    have hold : view.calls[place]? = some edge.weight := by
      rw [← h.calls_eq, calls, Digraph.edgeWeights, List.getElem?_map, hedge, Option.map_some]
    rw [CallGraph.setCallIn_of_getElem? view.ends_nodup hold hsame, ← h.calls_eq, hset,
      List.modify_eq_set_getElem?, hedge]
    exact List.map_set
  · -- no call had the ends of the new one
    have hnew' : call.ends ∉ view.calls.map (·.ends) := by
      rw [← h.calls_eq]
      intro hmem
      obtain ⟨other, hother, hsame⟩ := List.mem_map.1 hmem
      obtain ⟨edge, hedge, rfl⟩ := List.mem_map.1 hother
      exact hnew (List.mem_map.2 ⟨edge, hedge, (h.ends_eq_iff hedge hsource htarget).2 hsame⟩)
    rw [CallGraph.setCallIn_of_notMem hnew', ← h.calls_eq, hadded]
    exact List.map_append

/-- A call that is refused changes nothing. -/
lemma Represents.run_setCall_of_error (h : Represents g view) {fault : MissingEnd}
    (hset : view.setCall call = .error fault) : (setCall call).run.run g = (.error fault, g) := by
  rw [run_setCall]
  rcases CallGraph.setCall_eq_error_iff.1 hset with ⟨hcaller, rfl⟩ | ⟨hcaller, hcallee, rfl⟩
  · rw [h.lookup_eq_none hcaller]
  · obtain ⟨source, hsource⟩ := h.exists_lookup_iff.2 hcaller
    rw [hsource, h.lookup_eq_none hcallee]

/-- **A call that is accepted** is set in both. -/
lemma Represents.exists_run_setCall (h : Represents g view) {next : CallGraph}
    (hset : view.setCall call = .ok next) :
    ∃ g', (setCall call).run.run g = (.ok (), g') ∧ Represents g' next := by
  obtain ⟨hcaller, hcallee⟩ := CallGraph.mem_ids_of_setCall hset
  obtain ⟨source, hsource⟩ := h.exists_lookup_iff.2 hcaller
  obtain ⟨target, htarget⟩ := h.exists_lookup_iff.2 hcallee
  obtain ⟨hfunctions, hcalls⟩ := CallGraph.eq_of_setCall hset
  refine ⟨_, by rw [run_setCall, hsource, htarget], ?_⟩
  exact {
    toSound := h.toSound.updateEdge hsource htarget
    functions_eq := by
      rw [functions, Digraph.nodeWeights_updateEdge, hfunctions, ← h.functions_eq, functions]
    calls_eq := by rw [hcalls, calls, h.calls_updateEdge hsource htarget] }

/-! ## Answers -/

namespace Represents

lemma function?_eq (h : Represents g view) (id : FunctionId) :
    g.function? id = view.function? id := by
  by_cases hid : id ∈ view.ids
  · obtain ⟨number, hnumber⟩ := h.exists_lookup_iff.2 hid
    obtain ⟨node, hnode, hweight⟩ := h.exists_node hnumber
    have hmem : node.weight ∈ view.functions := by
      rw [← h.functions_eq]
      exact List.mem_map_of_mem (List.mem_of_getElem? hnode)
    rw [CallGraph.function?_eq_some_iff.2 ⟨hmem, hweight⟩]
    simp [function?, hnumber, hnode]
  · rw [CallGraph.function?_eq_none_iff.2 hid]
    simp [function?, h.lookup_eq_none hid]

lemma call?_eq_some_iff (h : Represents g view) :
    g.call? a b = some call ↔ call ∈ g.calls ∧ call.ends = (a, b) := by
  simp only [call?, Option.bind_eq_bind, Option.bind_eq_some_iff, Option.pure_def,
    Option.some.injEq]
  constructor
  · rintro ⟨source, hsource, target, htarget, place, hplace, edge, hedge, rfl⟩
    obtain ⟨edge', hedge', hends⟩ := h.linked.of_findEdge? hplace
    obtain rfl := Option.some.inj (hedge.symm.trans hedge')
    have hmem := List.mem_of_getElem? hedge
    exact ⟨List.mem_map_of_mem hmem, (h.ends_eq_iff hmem hsource htarget).1 hends⟩
  · rintro ⟨hcall, hends⟩
    obtain ⟨edge, hedge, rfl⟩ := List.mem_map.1 hcall
    obtain ⟨rfl, rfl⟩ := Prod.mk.inj hends
    obtain ⟨place, hplace⟩ := List.getElem?_of_mem hedge
    exact ⟨edge.source, h.joins edge hedge .outgoing, edge.target, h.joins edge hedge .incoming,
      place, (h.linked.findEdge?_iff h.ends_nodup).2 ⟨edge, hplace, rfl⟩, edge, hplace, rfl⟩

lemma call?_eq (h : Represents g view) (a b : FunctionId) : g.call? a b = view.call? a b := by
  refine Option.ext fun call => ?_
  rw [h.call?_eq_some_iff, h.calls_eq, CallGraph.call?_eq_some_iff]

/-- **The calls of a function** are those that its node lists. -/
lemma callsFrom_eq (h : Represents g view) (id : FunctionId) :
    g.callsFrom id = view.callsFrom id := by
  rw [CallGraph.callsFrom, ← h.calls_eq, callsFrom]
  cases hid : g.index.lookup id with
  | none => exact (h.filter_near_eq_nil hid .outgoing).symm
  | some number => exact h.weights_edgesAt hid .outgoing

/-- **The neighbours of a function** are the other ends of the calls at it. -/
lemma neighbors_eq_map (h : Represents g view) (id : FunctionId) (direction : Direction) :
    g.neighbors id direction
      = (view.calls.reverse.filter (·.near direction = id)).map (·.far direction) := by
  rw [← h.calls_eq]
  cases hid : g.index.lookup id with
  | none =>
    rw [h.filter_near_eq_nil hid direction, neighbors, hid]
    rfl
  | some number => exact h.neighbors_eq hid direction

lemma callees_eq (h : Represents g view) (id : FunctionId) : g.callees id = view.callees id :=
  h.neighbors_eq_map id .outgoing

lemma callers_eq (h : Represents g view) (id : FunctionId) : g.callers id = view.callers id :=
  h.neighbors_eq_map id .incoming

end Represents

end IndexedGraph

end BenchCover
