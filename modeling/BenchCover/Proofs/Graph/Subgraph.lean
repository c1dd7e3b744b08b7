import BenchCover.Proofs.Graph.Change
import BenchCover.Proofs.Graph.Walk

/-!
# The reachable part of a graph

`CallGraph.reachableSubgraph` adds the functions of a walk to an empty graph and then sets their calls.

**Functions.**  Setting calls never changes the functions, and the functions of a walk are distinct, so
the part has exactly the functions of the walk, in the order of the walk
(`functions_reachableSubgraph`).

**Calls.**  Whatever a reachable function calls is reachable, so that no call is refused, and no two of
the calls have the same ends, so that none takes the place of another (`foldlM_setCall`).  Hence the
part has exactly the calls that reachable functions make (`calls_reachableSubgraph`).

**Chains.**  From a reachable function a chain of calls leads on within the part.  So the part has the
same chains between its functions as the graph (`steps_reachableSubgraph_iff`).

`CallGraph.reachableSubgraph_spec` has all of it.
-/

namespace BenchCover

namespace CallGraph

variable {g : CallGraph} {start a b : FunctionId} {call : Call} {f : Function} {n : ℕ}

/-! ## Functions -/

lemma functions_foldl_withCall (g : CallGraph) (calls : List Call) :
    (calls.foldl withCall g).functions = g.functions := by
  induction calls generalizing g with
  | nil => rfl
  | cons call rest ih => rw [List.foldl_cons, ih, functions_withCall]

/-- Functions with new and distinct ids are added one after the other. -/
lemma functions_foldl_addFunction {fs : List Function}
    (hnodup : (g.ids ++ fs.map (·.id)).Nodup) :
    (fs.foldl addFunction g).functions = g.functions ++ fs := by
  induction fs generalizing g with
  | nil => simp
  | cons f rest ih =>
    have hnew : f.id ∉ g.ids := fun hmem =>
      (List.nodup_append.1 hnodup).2.2 f.id hmem f.id (by simp) rfl
    have hids : (g.addFunction f).ids = g.ids ++ [f.id] := by
      simp [ids, functions_addFunction hnew]
    rw [List.foldl_cons, ih (by simpa [hids] using hnodup), functions_addFunction hnew,
      List.append_assoc, List.singleton_append]

lemma calls_foldl_addFunction (g : CallGraph) (fs : List Function) :
    (fs.foldl addFunction g).calls = g.calls := by
  induction fs generalizing g with
  | nil => rfl
  | cons f rest ih => rw [List.foldl_cons, ih, calls_addFunction]

/-- The functions of a walk, without calls. -/
def reachableFunctions (g : CallGraph) (start : FunctionId) : CallGraph :=
  (g.reachable start).foldl addFunction empty

lemma functions_reachableFunctions (g : CallGraph) (start : FunctionId) :
    (g.reachableFunctions start).functions = g.reachable start :=
  functions_foldl_addFunction (g.nodup_reachable start)

/-- **The functions of the reachable part** are those of the walk. -/
theorem functions_reachableSubgraph (g : CallGraph) (start : FunctionId) :
    (g.reachableSubgraph start).functions = g.reachable start := by
  rw [reachableSubgraph, functions_foldl_withCall]
  exact g.functions_reachableFunctions start

lemma mem_ids_reachableSubgraph_iff (hstart : start ∈ g.ids) :
    a ∈ (g.reachableSubgraph start).ids ↔ g.Reaches start a := by
  rw [mem_ids_iff, functions_reachableSubgraph]
  constructor
  · rintro ⟨f, hf, rfl⟩
    exact ((mem_reachable_iff hstart).1 hf).2
  · intro hreaches
    obtain ⟨f, hf, rfl⟩ := mem_ids_iff.1 (hreaches.mem_ids hstart)
    exact ⟨f, (mem_reachable_iff hstart).2 ⟨hf, hreaches⟩, rfl⟩

/-- A walk starts with its start. -/
lemma head?_reachable (g : CallGraph) (start : FunctionId) :
    (g.reachable start).head? = g.function? start := by
  by_cases hstart : start ∈ g.ids
  · obtain ⟨f, hf, rfl⟩ := mem_ids_iff.1 hstart
    have hfound : g.function? f.id = some f := function?_eq_some_iff.2 ⟨hf, rfl⟩
    rw [reachable, visits_eq_trail hstart, trail, hfound]
    rfl
  · rw [reachable, visits_eq_nil hstart, function?_eq_none_iff.2 hstart]
    rfl

/-! ## Calls -/

/-- **Calls with new and distinct ends** between functions of a graph are set one after the other, and
none of them is refused. -/
lemma foldlM_setCall {calls : List Call} (hends : ((g.calls ++ calls).map (·.ends)).Nodup)
    (hknown : ∀ call ∈ calls, call.caller ∈ g.ids ∧ call.callee ∈ g.ids) :
    calls.foldlM setCall g = .ok (calls.foldl withCall g) ∧
      (calls.foldl withCall g).calls = g.calls ++ calls := by
  induction calls generalizing g with
  | nil => exact ⟨rfl, (List.append_nil _).symm⟩
  | cons call rest ih =>
    obtain ⟨hcaller, hcallee⟩ := hknown call List.mem_cons_self
    obtain ⟨next, hset, hfunctions⟩ := exists_setCall hcaller hcallee
    have hnew : call.ends ∉ g.calls.map (·.ends) := by
      rw [List.map_append, List.nodup_append] at hends
      exact fun hmem => hends.2.2 call.ends hmem call.ends (by simp) rfl
    have hcalls : next.calls = g.calls ++ [call] := by
      rw [(eq_of_setCall hset).2, setCallIn_of_notMem hnew]
    have hids : next.ids = g.ids := by rw [ids, hfunctions, ids]
    obtain ⟨haccepted, hrest⟩ := ih (g := next) (by simpa [hcalls] using hends)
      fun other hother => hids ▸ hknown other (List.mem_cons_of_mem _ hother)
    rw [List.foldlM_cons, hset, List.foldl_cons, withCall_of_ok hset]
    exact ⟨haccepted, by rw [hrest, hcalls, List.append_assoc, List.singleton_append]⟩

/-- The calls that the functions of a walk make. -/
def reachableCalls (g : CallGraph) (start : FunctionId) : List Call :=
  (g.reachable start).flatMap fun f => g.callsFrom f.id

lemma mem_callsFrom_iff : call ∈ g.callsFrom a ↔ call ∈ g.calls ∧ call.caller = a := by
  simp [callsFrom]

lemma mem_reachableCalls_iff (hstart : start ∈ g.ids) :
    call ∈ g.reachableCalls start ↔ call ∈ g.calls ∧ g.Reaches start call.caller := by
  simp only [reachableCalls, List.mem_flatMap, mem_callsFrom_iff]
  constructor
  · rintro ⟨f, hf, hcall, hcaller⟩
    exact ⟨hcall, hcaller ▸ ((mem_reachable_iff hstart).1 hf).2⟩
  · rintro ⟨hcall, hreaches⟩
    obtain ⟨f, hf, hid⟩ := mem_ids_iff.1 (g.caller_mem call hcall)
    exact ⟨f, (mem_reachable_iff hstart).2 ⟨hf, hid ▸ hreaches⟩, hcall, hid.symm⟩

lemma nodup_ends_reachableCalls (g : CallGraph) (start : FunctionId) :
    ((g.reachableCalls start).map (·.ends)).Nodup := by
  rw [reachableCalls, List.map_flatMap, List.nodup_flatMap]
  constructor
  · intro f _
    exact (List.nodup_reverse.2 g.ends_nodup).sublist
      (List.map_reverse ▸ List.filter_sublist.map _)
  · -- calls of different functions differ in their callers
    refine (List.pairwise_map.1 (g.nodup_reachable start)).imp fun {f h} hne => ?_
    intro ends hends hends'
    obtain ⟨call, hcall, rfl⟩ := List.mem_map.1 hends
    obtain ⟨other, hother, hsame⟩ := List.mem_map.1 hends'
    refine hne ?_
    rw [← (mem_callsFrom_iff.1 hcall).2, ← (mem_callsFrom_iff.1 hother).2]
    exact (congrArg Prod.fst hsame).symm

/-- Both ends of a call that a reachable function makes are reachable. -/
lemma ends_mem_of_mem_reachableCalls (hcall : call ∈ g.reachableCalls start) :
    call.caller ∈ (g.reachableFunctions start).ids ∧
      call.callee ∈ (g.reachableFunctions start).ids := by
  by_cases hstart : start ∈ g.ids
  · obtain ⟨hmem, hcaller⟩ := (mem_reachableCalls_iff hstart).1 hcall
    have hcallee : g.Reaches start call.callee :=
      hcaller.call (mem_callees.2 ⟨call, hmem, rfl⟩)
    have hids : (g.reachableFunctions start).ids = (g.reachableSubgraph start).ids := by
      rw [ids, functions_reachableFunctions, ids, functions_reachableSubgraph]
    rw [hids, mem_ids_reachableSubgraph_iff hstart, mem_ids_reachableSubgraph_iff hstart]
    exact ⟨hcaller, hcallee⟩
  · rw [reachableCalls, reachable, visits_eq_nil hstart] at hcall
    exact absurd hcall List.not_mem_nil

/-- **No call of the reachable part is refused**, and none takes the place of another. -/
lemma foldlM_reachableCalls (g : CallGraph) (start : FunctionId) :
    (g.reachableCalls start).foldlM setCall (g.reachableFunctions start)
        = .ok (g.reachableSubgraph start) ∧
      (g.reachableSubgraph start).calls = g.reachableCalls start := by
  have hnone : (g.reachableFunctions start).calls = [] := calls_foldl_addFunction ..
  have hends : (((g.reachableFunctions start).calls ++ g.reachableCalls start).map
      (·.ends)).Nodup := by
    rw [hnone]
    exact g.nodup_ends_reachableCalls start
  obtain ⟨haccepted, hcalls⟩ :=
    foldlM_setCall hends fun _ hcall => ends_mem_of_mem_reachableCalls hcall
  rw [hnone, List.nil_append] at hcalls
  exact ⟨haccepted, hcalls⟩

/-- **The calls of the reachable part** are those that reachable functions make. -/
theorem mem_calls_reachableSubgraph_iff (hstart : start ∈ g.ids) :
    call ∈ (g.reachableSubgraph start).calls ↔ call ∈ g.calls ∧ g.Reaches start call.caller := by
  rw [(g.foldlM_reachableCalls start).2, mem_reachableCalls_iff hstart]

/-! ## Chains -/

lemma mem_callees_reachableSubgraph_iff (hstart : start ∈ g.ids) :
    b ∈ (g.reachableSubgraph start).callees a ↔ b ∈ g.callees a ∧ g.Reaches start a := by
  rw [mem_callees, mem_callees]
  constructor
  · rintro ⟨call, hcall, hends⟩
    obtain ⟨hmem, hreaches⟩ := (mem_calls_reachableSubgraph_iff hstart).1 hcall
    have hcaller : call.caller = a := congrArg Prod.fst hends
    exact ⟨⟨call, hmem, hends⟩, hcaller ▸ hreaches⟩
  · rintro ⟨⟨call, hmem, hends⟩, hreaches⟩
    have hcaller : call.caller = a := congrArg Prod.fst hends
    exact ⟨call, (mem_calls_reachableSubgraph_iff hstart).2 ⟨hmem, hcaller ▸ hreaches⟩, hends⟩

/-- **Chains of calls from a reachable function** stay in the reachable part. -/
theorem steps_reachableSubgraph_iff (hstart : start ∈ g.ids) (ha : g.Reaches start a) :
    (g.reachableSubgraph start).Steps a n b ↔ g.Steps a n b := by
  constructor
  · intro hsteps
    induction hsteps with
    | start => exact .start
    | call _ hcallee ih => exact ih.call ((mem_callees_reachableSubgraph_iff hstart).1 hcallee).1
  · intro hsteps
    induction hsteps with
    | start => exact .start
    | @call n b c hsteps hcallee ih =>
      have hb : g.Reaches start b := ha.trans ⟨n, hsteps⟩
      exact ih.call ((mem_callees_reachableSubgraph_iff hstart).2 ⟨hcallee, hb⟩)

lemma reaches_reachableSubgraph_iff (hstart : start ∈ g.ids) (ha : g.Reaches start a) :
    (g.reachableSubgraph start).Reaches a b ↔ g.Reaches a b :=
  exists_congr fun _ => steps_reachableSubgraph_iff hstart ha

lemma isDistance_reachableSubgraph_iff (hstart : start ∈ g.ids) (ha : g.Reaches start a) :
    (g.reachableSubgraph start).IsDistance a b n ↔ g.IsDistance a b n := by
  simp only [IsDistance, steps_reachableSubgraph_iff hstart ha]

/-! ## All in all -/

/-- Graphs with the same functions and the same calls, in whatever order. -/
structure SameParts (g g' : CallGraph) : Prop where
  functions : g.functions.Perm g'.functions
  calls : g.calls.Perm g'.calls

/-- Functions and calls are told apart, so that it is enough to have the same ones. -/
lemma sameParts_of_mem_iff {g' : CallGraph} (hfunctions : ∀ f, f ∈ g.functions ↔ f ∈ g'.functions)
    (hcalls : ∀ call, call ∈ g.calls ↔ call ∈ g'.calls) : g.SameParts g' where
  functions := (List.perm_ext_iff_of_nodup g.ids_nodup.of_map g'.ids_nodup.of_map).2 hfunctions
  calls := (List.perm_ext_iff_of_nodup g.ends_nodup.of_map g'.ends_nodup.of_map).2 hcalls

/-- **What the reachable part of a graph is**, for a start in the graph. -/
structure ReachablePart (g : CallGraph) (start : FunctionId) (part : CallGraph) : Prop where
  /-- The functions stand in the order of the walk. -/
  functions : part.functions = (g.visits start).map (·.1)
  first : part.functions.head? = g.function? start
  mem_functions_iff : ∀ f, f ∈ part.functions ↔ f ∈ g.functions ∧ g.Reaches start f.id
  mem_calls_iff : ∀ call, call ∈ part.calls ↔ call ∈ g.calls ∧ g.Reaches start call.caller
  /-- Setting the calls of the functions, one after the other, is never refused. -/
  accepted : (g.reachableCalls start).foldlM setCall (g.reachableFunctions start) = .ok part
  isDistance_iff : ∀ a ∈ part.ids, ∀ b ∈ part.ids, ∀ n,
    part.IsDistance a b n ↔ g.IsDistance a b n
  reaches_iff : ∀ a ∈ part.ids, ∀ b ∈ part.ids, part.Reaches a b ↔ g.Reaches a b
  /-- Taking the reachable part again changes nothing but the order. -/
  again : (part.reachableSubgraph start).SameParts part

/-- The reachable part of the reachable part. -/
lemma sameParts_reachableSubgraph (hstart : start ∈ g.ids) :
    ((g.reachableSubgraph start).reachableSubgraph start).SameParts (g.reachableSubgraph start) := by
  have hpart : start ∈ (g.reachableSubgraph start).ids :=
    (mem_ids_reachableSubgraph_iff hstart).2 (.refl g start)
  refine sameParts_of_mem_iff (fun f => ?_) fun call => ?_
  · rw [functions_reachableSubgraph, mem_reachable_iff hpart, and_iff_left_iff_imp,
      reaches_reachableSubgraph_iff hstart (.refl g start), functions_reachableSubgraph,
      mem_reachable_iff hstart]
    exact And.right
  · rw [mem_calls_reachableSubgraph_iff hpart, and_iff_left_iff_imp,
      reaches_reachableSubgraph_iff hstart (.refl g start), mem_calls_reachableSubgraph_iff hstart]
    exact And.right

/-- **The part of a graph that a start reaches** has the functions that are reached, the start first
and all in the order of the walk, and the calls that they make, none of which is refused.  Between its
functions the least numbers of calls are those of the graph, and its own reachable part is the same.
From a start that is not in the graph nothing is reached. -/
theorem reachableSubgraph_spec (g : CallGraph) (start : FunctionId) :
    (start ∈ g.ids → g.ReachablePart start (g.reachableSubgraph start)) ∧
      (start ∉ g.ids → g.reachableSubgraph start = empty) := by
  refine ⟨fun hstart => ?_, fun hstart => ?_⟩
  · exact
      { functions := g.functions_reachableSubgraph start
        first := by rw [functions_reachableSubgraph, head?_reachable]
        mem_functions_iff := fun f => by
          rw [functions_reachableSubgraph, mem_reachable_iff hstart]
        mem_calls_iff := fun call => mem_calls_reachableSubgraph_iff hstart
        accepted := (g.foldlM_reachableCalls start).1
        isDistance_iff := fun a ha b _ n =>
          isDistance_reachableSubgraph_iff hstart ((mem_ids_reachableSubgraph_iff hstart).1 ha)
        reaches_iff := fun a ha b _ =>
          reaches_reachableSubgraph_iff hstart ((mem_ids_reachableSubgraph_iff hstart).1 ha)
        again := sameParts_reachableSubgraph hstart }
  · rw [reachableSubgraph, reachable, visits_eq_nil hstart]
    rfl

/-- Two functions that call each other, one that they call and one that calls into the cycle. -/
def looping : CallGraph where
  functions := [⟨0, "a", .zero, .zero⟩, ⟨1, "b", .zero, .zero⟩, ⟨2, "c", .zero, .zero⟩,
    ⟨3, "d", .zero, .zero⟩]
  calls := [⟨0, 1, .zero⟩, ⟨1, 0, .zero⟩, ⟨1, 2, .zero⟩, ⟨3, 1, .zero⟩]
  ids_nodup := by decide
  ends_nodup := by decide
  caller_mem := by decide
  callee_mem := by decide

theorem reachableSubgraph_spec_looping :
    looping.ReachablePart 0 (looping.reachableSubgraph 0) ∧ looping.reachableSubgraph 4 = empty :=
  ⟨(reachableSubgraph_spec looping 0).1 (by decide),
    (reachableSubgraph_spec looping 4).2 (by decide)⟩

end CallGraph

end BenchCover
