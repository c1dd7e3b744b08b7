import BenchCover.Proofs.Graph.Indexed
import Mathlib.Tactic.TFAE

/-!
# Graphs under operations

A graph is asked for its functions by id, for the call between two functions, and for the calls and
the neighbours of one function.  Here all these answers are told from the operations that the graph
went through.

**What operations tell.**  Some operations are refused: adding a function with an id that was added
before, and setting a call with an end that was not (`Operation.acceptedCalls` are the others).  The
functions are then the first ones of the ids that were added, the calls are the last ones of the
ends that were accepted, and both stand in the order in which their keys came first.  That is
`Operation.Built`, said of a call graph.  One operation keeps it (`Built.perform`), and so it holds
after any operations (`built_build`).

**Indexed graphs.**  `Operation.run` is one operation on an indexed graph, with all that it does to
the index, to the nodes and to the edges.  It goes along with the operation on the call graph that
the indexed graph represents, and leaves every part as it is if it is refused (`represents_run`).
So the two stay together from the empty graphs on (`represents_graph`).

`Operation.build_coherent` puts the two together: it is the list of all that an indexed graph
answers.
-/

namespace BenchCover

/-! ## Operations -/

/-- An operation on a call graph. -/
inductive Operation where
  | addFunction (f : Function)
  | setCall (call : Call)
  | addCall (caller callee : FunctionId) (time : Duration)
  deriving DecidableEq, Repr

namespace Operation

variable {operations : List Operation} {g : CallGraph} {f : Function} {call : Call}
  {id : FunctionId} {ends : FunctionId × FunctionId}

def function? : Operation → Option Function
  | addFunction f => some f
  | setCall _ | addCall _ _ _ => none

/-- The call that an operation is to set. -/
def call? : Operation → Option Call
  | addFunction _ => none
  | setCall call => some call
  | addCall caller callee time => some { caller, callee, time }

/-- One operation on a call graph. -/
def perform (g : CallGraph) : Operation → CallGraph
  | addFunction f => g.addFunction f
  | setCall call => g.withCall call
  | addCall caller callee time => g.withCall { caller, callee, time }

/-- What operations make of the empty call graph. -/
def build (operations : List Operation) : CallGraph :=
  operations.foldl perform CallGraph.empty

/-! ### What operations tell -/

/-- The functions that are added, those with a known id included. -/
def addedFunctions (operations : List Operation) : List Function :=
  operations.filterMap function?

/-- The call that an operation sets below some others: both of its ends must have been added. -/
def callBelow? (above : List Operation) (operation : Operation) : Option Call :=
  let known := (addedFunctions above).map (·.id)
  operation.call?.filter fun call => call.caller ∈ known ∧ call.callee ∈ known

def acceptedCallsFrom (above : List Operation) : List Operation → List Call
  | [] => []
  | operation :: rest =>
    (callBelow? above operation).toList ++ acceptedCallsFrom (above ++ [operation]) rest

/-- The calls that are set, each below the operations in front of it. -/
def acceptedCalls (operations : List Operation) : List Call :=
  acceptedCallsFrom [] operations

/-- The ids that are added, each where it comes first. -/
def distinctIds (operations : List Operation) : List FunctionId :=
  ((addedFunctions operations).map (·.id)).eraseDups

/-- The first function that is added with an id. -/
def firstFunction? (operations : List Operation) (id : FunctionId) : Option Function :=
  (addedFunctions operations).find? (·.id = id)

/-- The ends of the calls that are set, each where they come first. -/
def distinctEnds (operations : List Operation) : List (FunctionId × FunctionId) :=
  ((acceptedCalls operations).map (·.ends)).eraseDups

/-- The last call that is set between two functions. -/
def lastCall? (operations : List Operation) (ends : FunctionId × FunctionId) : Option Call :=
  (acceptedCalls operations).reverse.find? (·.ends = ends)

lemma mem_distinctIds_iff :
    id ∈ distinctIds operations ↔ ∃ f ∈ addedFunctions operations, f.id = id := by
  rw [distinctIds, List.mem_eraseDups, List.mem_map]

lemma of_firstFunction? (hf : firstFunction? operations id = some f) :
    f.id = id ∧ id ∈ distinctIds operations := by
  have hid : f.id = id := by simpa using List.find?_some hf
  exact ⟨hid, mem_distinctIds_iff.2 ⟨f, List.mem_of_find?_eq_some hf, hid⟩⟩

lemma firstFunction?_eq_none (hid : id ∉ distinctIds operations) :
    firstFunction? operations id = none := by
  rw [firstFunction?, List.find?_eq_none]
  intro f hf
  simpa using fun hsame => hid (mem_distinctIds_iff.2 ⟨f, hf, hsame⟩)

lemma of_lastCall? (hcall : lastCall? operations ends = some call) :
    call.ends = ends ∧ ends ∈ distinctEnds operations := by
  have hends : call.ends = ends := by simpa using List.find?_some hcall
  refine ⟨hends, ?_⟩
  rw [distinctEnds, List.mem_eraseDups, ← hends]
  exact List.mem_map_of_mem (List.mem_reverse.1 (List.mem_of_find?_eq_some hcall))

/-! ### One operation more -/

lemma addedFunctions_concat (operations : List Operation) (operation : Operation) :
    addedFunctions (operations ++ [operation])
      = addedFunctions operations ++ operation.function?.toList := by
  rw [addedFunctions, List.filterMap_append, ← addedFunctions]
  cases hf : operation.function? <;> simp [hf]

lemma acceptedCallsFrom_append (above operations others : List Operation) :
    acceptedCallsFrom above (operations ++ others)
      = acceptedCallsFrom above operations ++ acceptedCallsFrom (above ++ operations) others := by
  induction operations generalizing above with
  | nil => simp [acceptedCallsFrom]
  | cons operation rest ih =>
    rw [List.cons_append, acceptedCallsFrom, ih, acceptedCallsFrom, List.append_assoc,
      List.append_assoc, List.singleton_append]

lemma acceptedCalls_concat (operations : List Operation) (operation : Operation) :
    acceptedCalls (operations ++ [operation])
      = acceptedCalls operations ++ (callBelow? operations operation).toList := by
  rw [acceptedCalls, acceptedCallsFrom_append, acceptedCallsFrom, acceptedCallsFrom,
    List.append_nil, List.nil_append, acceptedCalls]

/-- **What a graph is after operations.**  The functions are the first ones of their ids and the
calls are the last ones of their ends, in the order in which these come first. -/
structure Built (operations : List Operation) (g : CallGraph) : Prop where
  functions : List.Forall₂ (fun id f => firstFunction? operations id = some f)
    (distinctIds operations) g.functions
  calls : List.Forall₂ (fun ends call => lastCall? operations ends = some call)
    (distinctEnds operations) g.calls

namespace Built

lemma ids_eq (h : Built operations g) : g.ids = distinctIds operations := by
  have hids : List.Forall₂ Eq (distinctIds operations) (g.functions.map (·.id)) :=
    List.forall₂_map_right_iff.2 (h.functions.imp fun _ _ hf => (of_firstFunction? hf).1.symm)
  rw [List.forall₂_eq_eq_eq] at hids
  exact hids.symm

lemma ends_eq (h : Built operations g) : g.calls.map (·.ends) = distinctEnds operations := by
  have hends : List.Forall₂ Eq (distinctEnds operations) (g.calls.map (·.ends)) :=
    List.forall₂_map_right_iff.2 (h.calls.imp fun _ _ hcall => (of_lastCall? hcall).1.symm)
  rw [List.forall₂_eq_eq_eq] at hends
  exact hends.symm

lemma function?_eq (h : Built operations g) (id : FunctionId) :
    g.function? id = firstFunction? operations id :=
  find?_of_forall₂ h.functions (fun _ _ hf => (of_firstFunction? hf).1)
    (fun _ _ hf => (of_firstFunction? hf).2) id

lemma call?_eq (h : Built operations g) (a b : FunctionId) :
    g.call? a b = lastCall? operations (a, b) :=
  find?_of_forall₂ h.calls (fun _ _ hcall => (of_lastCall? hcall).1)
    (fun _ _ hcall => (of_lastCall? hcall).2) (a, b)

/-! ### Kept by every operation -/

lemma mem_ids_iff (h : Built operations g) :
    id ∈ g.ids ↔ id ∈ (addedFunctions operations).map (·.id) := by
  rw [h.ids_eq, distinctIds, List.mem_eraseDups]

/-- **A function** is the next one if its id is new; the earlier functions stay the first ones of
their ids. -/
lemma addFunction (h : Built operations g) (f : Function) :
    Built (operations ++ [addFunction f]) (g.addFunction f) where
  functions := by
    have hadded : addedFunctions (operations ++ [.addFunction f])
        = addedFunctions operations ++ [f] :=
      addedFunctions_concat operations _
    have hids : distinctIds (operations ++ [.addFunction f])
        = if f.id ∈ distinctIds operations then distinctIds operations
          else distinctIds operations ++ [f.id] := by
      rw [distinctIds, hadded, List.map_append, List.map_singleton, eraseDups_concat, ← distinctIds]
    have hfirst : ∀ id, firstFunction? (operations ++ [.addFunction f]) id
        = (firstFunction? operations id).or (if f.id = id then some f else none) := by
      intro id
      rw [firstFunction?, hadded, List.find?_append, ← firstFunction?]
      by_cases hid : f.id = id <;> simp [hid]
    have hold : List.Forall₂
        (fun id f' => firstFunction? (operations ++ [.addFunction f]) id = some f')
        (distinctIds operations) g.functions :=
      h.functions.imp fun id f' hf' => by rw [hfirst, hf', Option.some_or]
    rw [hids]
    by_cases hknown : f.id ∈ distinctIds operations
    · rw [if_pos hknown, CallGraph.addFunction_of_mem (h.ids_eq ▸ hknown)]
      exact hold
    · rw [if_neg hknown, CallGraph.functions_addFunction (h.ids_eq ▸ hknown)]
      refine List.rel_append hold (.cons ?_ .nil)
      rw [hfirst, firstFunction?_eq_none hknown, if_pos rfl, Option.none_or]
  calls := by
    have hcalls : acceptedCalls (operations ++ [.addFunction f]) = acceptedCalls operations :=
      (acceptedCalls_concat operations _).trans (List.append_nil _)
    rw [CallGraph.calls_addFunction, distinctEnds, hcalls]
    exact h.calls.imp fun ends call hcall => by rwa [lastCall?, hcalls]

/-- **A call** between functions of the graph takes the place of the one with its ends, or else is
the next one; any other call is refused. -/
lemma withCall (h : Built operations g) {operation : Operation}
    (hcall : operation.call? = some call) (hnone : operation.function? = none) :
    Built (operations ++ [operation]) (g.withCall call) where
  functions := by
    have hadded : addedFunctions (operations ++ [operation]) = addedFunctions operations := by
      rw [addedFunctions_concat, hnone, Option.toList_none, List.append_nil]
    rw [CallGraph.functions_withCall, distinctIds, hadded]
    exact h.functions.imp fun id f hf => by rwa [firstFunction?, hadded]
  calls := by
    have haccepted : acceptedCalls (operations ++ [operation]) = acceptedCalls operations
        ++ if call.caller ∈ g.ids ∧ call.callee ∈ g.ids then [call] else [] := by
      rw [acceptedCalls_concat, callBelow?, hcall]
      simp only [← h.mem_ids_iff, Option.filter_some, decide_eq_true_eq]
      split_ifs <;> rfl
    cases hset : g.setCall call with
    | error fault =>
      have hrefused : ¬ (call.caller ∈ g.ids ∧ call.callee ∈ g.ids) := by
        rcases CallGraph.setCall_eq_error_iff.1 hset with ⟨hcaller, -⟩ | ⟨-, hcallee, -⟩
        · exact fun hends => hcaller hends.1
        · exact fun hends => hcallee hends.2
      rw [if_neg hrefused, List.append_nil] at haccepted
      rw [CallGraph.withCall_of_error hset, distinctEnds, haccepted]
      exact h.calls.imp fun ends call hcall => by rwa [lastCall?, haccepted]
    | ok next =>
      rw [if_pos (CallGraph.mem_ids_of_setCall hset)] at haccepted
      have hends : distinctEnds (operations ++ [operation])
          = if call.ends ∈ distinctEnds operations then distinctEnds operations
            else distinctEnds operations ++ [call.ends] := by
        rw [distinctEnds, haccepted, List.map_append, List.map_singleton, eraseDups_concat,
          ← distinctEnds]
      have hlast : ∀ ends, lastCall? (operations ++ [operation]) ends
          = if call.ends = ends then some call else lastCall? operations ends := by
        intro ends
        rw [lastCall?, haccepted, List.reverse_append, List.reverse_singleton,
          List.singleton_append, List.find?_cons]
        by_cases hsame : call.ends = ends <;> simp [hsame, lastCall?]
      rw [CallGraph.withCall_of_ok hset, (CallGraph.eq_of_setCall hset).2, hends]
      refine CallGraph.forall₂_setCallIn h.calls (nodup_eraseDups _) ?_ ?_ ?_
      · intro ends other hother
        rw [(of_lastCall? hother).1]
      · rw [hlast, if_pos rfl]
      · intro ends other hne hother
        rw [hlast, if_neg hne.symm, hother]

/-- **Every operation keeps it.** -/
lemma perform (h : Built operations g) (operation : Operation) :
    Built (operations ++ [operation]) (Operation.perform g operation) := by
  cases operation with
  | addFunction f => exact h.addFunction f
  | setCall call => exact h.withCall rfl rfl
  | addCall caller callee time => exact h.withCall rfl rfl

end Built

/-- **So do all of them**, from the empty graph on. -/
lemma built_build (operations : List Operation) : Built operations (build operations) := by
  induction operations using List.reverseRecOn with
  | nil => exact ⟨.nil, .nil⟩
  | append_singleton operations operation ih =>
    rw [build, List.foldl_concat, ← build]
    exact ih.perform operation

/-! ## Indexed graphs -/

/-- What an operation answers: whether the function is new, or whether both ends of the call are
there. -/
inductive Answer where
  | added (isNew : Bool)
  | set (result : Except MissingEnd Unit)

def Answer.refused : Answer → Bool
  | added isNew => !isNew
  | set (.error _) => true
  | set (.ok _) => false

/-- **One operation**, and what it answers. -/
def run : Operation → StateM IndexedGraph Answer
  | addFunction f => return .added (← IndexedGraph.addFunction f)
  | setCall call => return .set (← (IndexedGraph.setCall call).run)
  | addCall caller callee time => return .set (← (IndexedGraph.addCall caller callee time).run)

/-- **What operations make of the graph without functions.** -/
def graph (operations : List Operation) : IndexedGraph :=
  ((operations.mapM run).run .empty).2

lemma graph_concat (operations : List Operation) (operation : Operation) :
    graph (operations ++ [operation]) = (operation.run.run (graph operations)).2 := by
  simp only [graph, List.mapM_append, List.mapM_cons, List.mapM_nil, StateT.run_bind]
  rfl

section Run

variable {indexed : IndexedGraph}

lemma run_of_call? {operation : Operation} (hcall : operation.call? = some call) :
    operation.run = return .set (← (IndexedGraph.setCall call).run) := by
  cases operation <;> cases hcall <;> rfl

/-- A call is set in both graphs, or in neither. -/
lemma represents_run_of_call? (h : indexed.Represents g) {operation : Operation}
    (hcall : operation.call? = some call) :
    (operation.run.run indexed).2.Represents (g.withCall call) ∧
      ((operation.run.run indexed).1.refused → (operation.run.run indexed).2 = indexed) := by
  rw [run_of_call? hcall, StateT.run_bind]
  cases hset : g.setCall call with
  | error fault =>
    rw [h.run_setCall_of_error hset, CallGraph.withCall_of_error hset]
    exact ⟨h, fun _ => rfl⟩
  | ok next =>
    obtain ⟨indexed', hrun, hnext⟩ := h.exists_run_setCall hset
    rw [hrun, CallGraph.withCall_of_ok hset]
    exact ⟨hnext, fun hrefused => by cases hrefused⟩

/-- What is answered to a call. -/
lemma answer_of_call? {operation : Operation} (hcall : operation.call? = some call)
    (indexed : IndexedGraph) : (operation.run.run indexed).1
      = .set (if ¬ indexed.contains call.caller then .error ⟨.caller, call.caller⟩
        else if ¬ indexed.contains call.callee then .error ⟨.callee, call.callee⟩ else .ok ()) := by
  rw [run_of_call? hcall, ← IndexedGraph.answer_setCall]
  rfl

/-- What is answered to a function. -/
lemma answer_addFunction (f : Function) (indexed : IndexedGraph) :
    ((addFunction f).run.run indexed).1 = .added (!indexed.contains f.id) := by
  rw [run, StateT.run_bind, IndexedGraph.run_addFunction, IndexedGraph.contains]
  cases indexed.index.contains f.id <;> rfl

/-- **One operation** keeps to what the call graph does, and changes nothing if it is refused. -/
lemma represents_run (h : indexed.Represents g) (operation : Operation) :
    (operation.run.run indexed).2.Represents (perform g operation) ∧
      ((operation.run.run indexed).1.refused → (operation.run.run indexed).2 = indexed) := by
  cases operation with
  | addFunction f =>
    rw [run, StateT.run_bind, perform]
    by_cases hknown : f.id ∈ g.ids
    · rw [h.run_addFunction_of_mem hknown, CallGraph.addFunction_of_mem hknown]
      exact ⟨h, fun _ => rfl⟩
    · obtain ⟨indexed', hrun, hnext⟩ := h.exists_run_addFunction hknown
      rw [hrun]
      exact ⟨hnext, fun hrefused => by cases hrefused⟩
  | setCall call => exact represents_run_of_call? h rfl
  | addCall caller callee time => exact represents_run_of_call? h rfl

end Run

/-- **After any operations** the two graphs are together. -/
theorem represents_graph (operations : List Operation) :
    (graph operations).Represents (build operations) := by
  induction operations using List.reverseRecOn with
  | nil => exact IndexedGraph.represents_empty
  | append_singleton operations operation ih =>
    rw [graph_concat, build, List.foldl_concat, ← build]
    exact (represents_run ih operation).1

/-! ### All answers together -/

/-- **What an indexed graph answers after operations.** -/
structure Coherent (operations : List Operation) (g : IndexedGraph) : Prop where
  /-- The index, the nodes and the edges are in step, and hold the functions and the calls of a call
  graph. -/
  represents : g.Represents (build operations)
  /-- The functions are the first ones of their ids, in the order in which these come first. -/
  functions : List.Forall₂ (fun id f => firstFunction? operations id = some f)
    (distinctIds operations) g.functions
  /-- The calls are the last ones of their ends, in the order in which these come first. -/
  calls : List.Forall₂ (fun ends call => lastCall? operations ends = some call)
    (distinctEnds operations) g.calls
  ids_nodup : (g.functions.map (·.id)).Nodup
  /-- The functions that are found by id are those that are listed. -/
  function?_iff : ∀ id f, g.function? id = some f ↔ f ∈ g.functions ∧ f.id = id
  function?_eq : ∀ id, g.function? id = firstFunction? operations id
  contains_iff : ∀ id, g.contains id ↔ ∃ f ∈ g.functions, f.id = id
  ends_mem : ∀ call ∈ g.calls, g.contains call.caller ∧ g.contains call.callee
  ends_nodup : (g.calls.map (·.ends)).Nodup
  call?_iff : ∀ a b call, g.call? a b = some call ↔ call ∈ g.calls ∧ call.ends = (a, b)
  call?_eq : ∀ a b, g.call? a b = lastCall? operations (a, b)
  /-- The views of a call agree, also if it goes from a function to itself. -/
  views : ∀ a b, [b ∈ g.callees a, a ∈ g.callers b, (g.call? a b).isSome = true,
    ∃ call ∈ g.callsFrom a, call.callee = b].TFAE
  callees_nodup : ∀ a, (g.callees a).Nodup
  callers_nodup : ∀ b, (g.callers b).Nodup
  mem_callsFrom_iff : ∀ a call, call ∈ g.callsFrom a ↔
    call.caller = a ∧ g.call? a call.callee = some call
  /-- The neighbours that a function calls are those that its calls go to, in the same order. -/
  map_callsFrom : ∀ a, (g.callsFrom a).map (·.callee) = g.callees a
  /-- The latest new call comes first. -/
  callees_eq : ∀ a, g.callees a = ((distinctEnds operations).reverse.filter (·.1 = a)).map (·.2)
  callers_eq : ∀ b, g.callers b = ((distinctEnds operations).reverse.filter (·.2 = b)).map (·.1)
  /-- A function is refused for an id that was added before. -/
  addFunction_answer : ∀ f, ((addFunction f).run.run g).1
    = .added (f.id ∉ (addedFunctions operations).map (·.id))
  /-- A call is refused for its caller first, and then for its callee. -/
  call_answer : ∀ (operation : Operation) call, operation.call? = some call →
    (operation.run.run g).1 = .set (if ¬ g.contains call.caller then .error ⟨.caller, call.caller⟩
      else if ¬ g.contains call.callee then .error ⟨.callee, call.callee⟩ else .ok ())
  /-- What is refused leaves the index, the nodes and the edges as they are. -/
  unchanged : ∀ operation : Operation, (operation.run.run g).1.refused → (operation.run.run g).2 = g

lemma coherent_of_represents {indexed : IndexedGraph}
    (hbuilt : Built operations (build operations)) (h : indexed.Represents (build operations)) :
    Coherent operations indexed where
  represents := h
  functions := h.functions_eq ▸ hbuilt.functions
  calls := h.calls_eq ▸ hbuilt.calls
  ids_nodup := h.functions_eq ▸ (build operations).ids_nodup
  function?_iff id f := by
    rw [h.function?_eq, h.functions_eq]
    exact CallGraph.function?_eq_some_iff
  function?_eq id := by rw [h.function?_eq, hbuilt.function?_eq]
  contains_iff id := by
    rw [h.contains_eq, h.functions_eq, CallGraph.contains, decide_eq_true_iff,
      CallGraph.mem_ids_iff]
  ends_mem call hcall := by
    rw [h.calls_eq] at hcall
    simp only [h.contains_eq, CallGraph.contains, decide_eq_true_iff]
    exact ⟨(build operations).caller_mem call hcall, (build operations).callee_mem call hcall⟩
  ends_nodup := h.calls_eq ▸ (build operations).ends_nodup
  call?_iff a b call := by
    rw [h.call?_eq, h.calls_eq]
    exact CallGraph.call?_eq_some_iff
  call?_eq a b := by rw [h.call?_eq, hbuilt.call?_eq]
  views a b := by
    rw [h.callees_eq, h.callers_eq, h.call?_eq, h.callsFrom_eq]
    have hcallees : b ∈ (build operations).callees a ↔
        ∃ call ∈ (build operations).callsFrom a, call.callee = b := List.mem_map
    tfae_have 1 ↔ 4 := hcallees
    tfae_have 2 ↔ 1 := CallGraph.mem_callers
    tfae_have 3 ↔ 4 := CallGraph.isSome_call?_iff
    tfae_finish
  callees_nodup a := h.callees_eq a ▸ CallGraph.callees_nodup _ a
  callers_nodup b := h.callers_eq b ▸ CallGraph.callers_nodup _ b
  mem_callsFrom_iff a call := by
    rw [h.callsFrom_eq, h.call?_eq]
    exact CallGraph.mem_callsFrom_iff_call?
  map_callsFrom a := by rw [h.callsFrom_eq, h.callees_eq, CallGraph.callees]
  callees_eq a := by rw [h.callees_eq, CallGraph.callees_eq_ends, hbuilt.ends_eq]
  callers_eq b := by rw [h.callers_eq, CallGraph.callers_eq_ends, hbuilt.ends_eq]
  addFunction_answer f := by
    rw [answer_addFunction, h.contains_eq, CallGraph.contains, decide_not]
    simp only [hbuilt.mem_ids_iff]
  call_answer operation call hcall := answer_of_call? hcall indexed
  unchanged operation := (represents_run h operation).2

/-- **A graph after any operations** lists its functions once for each id, in the order of the ids
and as they were first added, and its calls once for each pair of ends, in the order of the pairs
and as they were last set.  Its index and its lists of neighbours never fall out of step, so that
looking up, listing calls and listing neighbours all tell of these functions and calls, and an
operation that is refused changes nothing. -/
theorem build_coherent (operations : List Operation) : Coherent operations (graph operations) :=
  coherent_of_represents (built_build operations) (represents_graph operations)

end Operation

end BenchCover
