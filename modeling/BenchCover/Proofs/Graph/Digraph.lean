import BenchCover.Graph.Digraph
import Mathlib.Data.List.Induction
import Mathlib.Data.List.Nodup

/-!
# Adjacency lists stay in step

A directed graph says where its edges are in three places: in the edges, and for each node in the
numbers of the edges that start at it and of those that end at it.

**Numbers.**  The lists of a node hold the numbers of the edges at it and nothing else, the latest
first: `Digraph.Linked`.  So what a list says is a part of the list of all edges
(`Digraph.Linked.edgesAt_eq`), and an edge is found where there is one
(`Digraph.Linked.findEdge?_iff`).

**Changes.**  Adding a node keeps this, and so does setting an edge, which never gives a second one
between the same nodes: `Digraph.updateEdge_cases`.
-/

namespace BenchCover

namespace Digraph

variable {ν ω : Type} {g : Digraph ν ω} {edges : List (Edge ω)} {edge : Edge ω} {weight : ω}
  {number place source target : ℕ} {direction : Direction}

/-- A change of one entry that a function does not see. -/
lemma map_modify_of_comp {α β : Type} {f : α → β} {change : α → α}
    (hchange : ∀ a, f (change a) = f a) (l : List α) (place : ℕ) :
    (l.modify place change).map f = l.map f := by
  refine List.ext_getElem? fun other => ?_
  rw [List.getElem?_map, List.getElem?_map, List.getElem?_modify]
  cases l[other]? with
  | none => rfl
  | some a => by_cases hother : place = other <;> simp [hother, hchange]

/-! ## Numbers of edges -/

/-- The numbers of the edges at a node, the latest first. -/
def numbersAt (edges : List (Edge ω)) (number : ℕ) (direction : Direction) : List ℕ :=
  ((List.range edges.length).filter fun place =>
    edges[place]?.any (·.near direction == number)).reverse

lemma mem_numbersAt_iff : place ∈ numbersAt edges number direction ↔
    ∃ edge, edges[place]? = some edge ∧ edge.near direction = number := by
  simp only [numbersAt, List.mem_reverse, List.mem_filter, List.mem_range, Option.any_eq_true,
    beq_iff_eq]
  constructor
  · rintro ⟨-, edge, hedge, hnear⟩
    exact ⟨edge, hedge, hnear⟩
  · rintro ⟨edge, hedge, hnear⟩
    exact ⟨(List.getElem?_eq_some_iff.1 hedge).1, edge, hedge, hnear⟩

/-- A new edge is the first one at its ends. -/
lemma numbersAt_concat (edges : List (Edge ω)) (edge : Edge ω) (number : ℕ)
    (direction : Direction) : numbersAt (edges ++ [edge]) number direction
      = if edge.near direction = number then edges.length :: numbersAt edges number direction
        else numbersAt edges number direction := by
  have hold : (List.range edges.length).filter (fun place =>
        (edges ++ [edge])[place]?.any (·.near direction == number))
      = (List.range edges.length).filter fun place =>
        edges[place]?.any (·.near direction == number) := by
    refine List.filter_congr fun place hplace => ?_
    rw [List.getElem?_append_left (List.mem_range.1 hplace)]
  rw [numbersAt, List.length_append, List.length_singleton, List.range_succ, List.filter_append,
    hold]
  by_cases hnear : edge.near direction = number <;> simp [hnear, numbersAt]

/-- Another weight changes no ends. -/
lemma map_near_modify (edges : List (Edge ω)) (place : ℕ) (weight : ω) (direction : Direction) :
    (edges.modify place (Edge.withWeight weight)).map (·.near direction)
      = edges.map (·.near direction) := by
  refine map_modify_of_comp (fun edge => ?_) edges place
  cases direction <;> rfl

/-- The numbers depend on the ends only. -/
lemma numbersAt_eq_of_map_near {edges' : List (Edge ω)}
    (hends : edges.map (·.near direction) = edges'.map (·.near direction)) (number : ℕ) :
    numbersAt edges number direction = numbersAt edges' number direction := by
  have hany : ∀ (edges : List (Edge ω)) (place : ℕ),
      edges[place]?.any (·.near direction == number)
        = (edges.map (·.near direction))[place]?.any (· == number) := by
    intro edges place
    rw [List.getElem?_map]
    cases edges[place]? <;> rfl
  have hlength : edges.length = edges'.length := by simpa using congrArg List.length hends
  simp only [numbersAt, hany, hends, hlength]

/-- **The edges with these numbers** are those at the node. -/
lemma filterMap_numbersAt (edges : List (Edge ω)) (number : ℕ) (direction : Direction) :
    (numbersAt edges number direction).filterMap (edges[·]?)
      = edges.reverse.filter (·.near direction = number) := by
  induction edges using List.reverseRecOn with
  | nil => rfl
  | append_singleton edges edge ih =>
    have hold : (numbersAt edges number direction).filterMap ((edges ++ [edge])[·]?)
        = edges.reverse.filter (·.near direction = number) := by
      rw [← ih]
      refine List.filterMap_congr fun place hplace => ?_
      obtain ⟨other, hother, -⟩ := mem_numbersAt_iff.1 hplace
      rw [List.getElem?_append_left (List.getElem?_eq_some_iff.1 hother).1]
    rw [numbersAt_concat, List.reverse_append, List.reverse_singleton, List.singleton_append]
    by_cases hnear : edge.near direction = number
    · simp [hnear, hold]
    · simp [hnear, hold]

/-! ## Adjacency lists -/

/-- **The lists of the nodes and the edges are in step.** -/
structure Linked (g : Digraph ν ω) : Prop where
  numbers_eq : ∀ number node, g.nodes[number]? = some node → ∀ direction,
    node.numbers direction = numbersAt g.edges number direction
  near_lt : ∀ edge ∈ g.edges, ∀ direction, edge.near direction < g.nodes.length

lemma linked_empty : (empty : Digraph ν ω).Linked where
  numbers_eq _ _ hnode := by simp [empty] at hnode
  near_lt _ hedge := by simp [empty] at hedge

/-- What the list of a node says. -/
lemma Linked.edgesAt_eq (h : g.Linked) (hnumber : number < g.nodes.length)
    (direction : Direction) :
    g.edgesAt number direction = g.edges.reverse.filter (·.near direction = number) := by
  have hnode : g.nodes[number]? = some g.nodes[number] := List.getElem?_eq_getElem hnumber
  rw [edgesAt, hnode, ← filterMap_numbersAt, ← h.numbers_eq number _ hnode]

/-- An edge that is found has the ends that were asked for. -/
lemma Linked.of_findEdge? (h : g.Linked) (hfound : g.findEdge? source target = some place) :
    ∃ edge, g.edges[place]? = some edge ∧ edge.ends = (source, target) := by
  obtain ⟨node, hnode, hfind⟩ := Option.bind_eq_some_iff.1 hfound
  have hmem : place ∈ numbersAt g.edges source .outgoing := by
    rw [← h.numbers_eq source node hnode]
    exact List.mem_of_find?_eq_some hfind
  obtain ⟨edge, hedge, hsource⟩ := mem_numbersAt_iff.1 hmem
  have htarget : edge.target = target := by simpa [hedge] using List.find?_some hfind
  exact ⟨edge, hedge, Prod.ext hsource htarget⟩

/-- **An edge is found exactly if there is one**, if there is never more than one. -/
lemma Linked.findEdge?_iff (h : g.Linked) (hnodup : (g.edges.map Edge.ends).Nodup) :
    g.findEdge? source target = some place ↔
      ∃ edge, g.edges[place]? = some edge ∧ edge.ends = (source, target) := by
  refine ⟨h.of_findEdge?, ?_⟩
  rintro ⟨edge, hedge, hends⟩
  obtain ⟨hsource, htarget⟩ := Prod.mk.inj hends
  have hlt : source < g.nodes.length :=
    hsource ▸ h.near_lt edge (List.mem_of_getElem? hedge) .outgoing
  have hnode : g.nodes[source]? = some g.nodes[source] := List.getElem?_eq_getElem hlt
  have hmem : place ∈ g.nodes[source].outgoing := by
    rw [show g.nodes[source].outgoing = _ from h.numbers_eq source _ hnode .outgoing]
    exact mem_numbersAt_iff.2 ⟨edge, hedge, hsource⟩
  cases hfound : g.findEdge? source target with
  | none =>
    have hnone : g.nodes[source].outgoing.find?
        (fun number => g.edges[number]?.any (·.target == target)) = none := by
      simpa [findEdge?, hnode] using hfound
    have hother := List.find?_eq_none.1 hnone place hmem
    simp [hedge, htarget] at hother
  | some other =>
    -- the edge that is found has the same ends, so it is the same edge
    obtain ⟨edge', hedge', hends'⟩ := h.of_findEdge? hfound
    have hplace : (g.edges.map Edge.ends)[other]? = (g.edges.map Edge.ends)[place]? := by
      rw [List.getElem?_map, List.getElem?_map, hedge, hedge', Option.map_some, Option.map_some,
        hends, hends']
    have hother : other < (g.edges.map Edge.ends).length := by
      rw [List.length_map]
      exact (List.getElem?_eq_some_iff.1 hedge').1
    rw [(List.getElem?_inj hother hnodup).1 hplace]

/-! ### Kept by every change -/

lemma numbers_link (node : Node ν) (direction other : Direction) (place : ℕ) :
    (node.link direction place).numbers other
      = if direction = other then place :: node.numbers other else node.numbers other := by
  cases direction <;> cases other <;> rfl

lemma Linked.addNode (h : g.Linked) (weight : ν) : (g.addNode weight).2.Linked where
  numbers_eq number node hnode direction := by
    simp only [Digraph.addNode] at hnode ⊢
    by_cases hlt : number < g.nodes.length
    · rw [List.getElem?_append_left hlt] at hnode
      exact h.numbers_eq number node hnode direction
    · -- the new node has no edges, as all edges join nodes that were there
      have hnew : numbersAt g.edges number direction = [] := by
        refine List.eq_nil_iff_forall_not_mem.2 fun place hplace => hlt ?_
        obtain ⟨edge, hedge, hnear⟩ := mem_numbersAt_iff.1 hplace
        exact hnear ▸ h.near_lt edge (List.mem_of_getElem? hedge) direction
      rw [hnew]
      rw [List.getElem?_append_right (Nat.le_of_not_lt hlt)] at hnode
      have hmem := List.mem_of_getElem? hnode
      rw [List.mem_singleton] at hmem
      subst hmem
      cases direction <;> rfl
  near_lt edge hedge direction := by
    have hlt := h.near_lt edge hedge direction
    simp only [Digraph.addNode, List.length_append, List.length_singleton]
    omega

lemma Linked.addEdge (h : g.Linked) (hsource : source < g.nodes.length)
    (htarget : target < g.nodes.length) (weight : ω) :
    (g.addEdge source target weight).Linked where
  numbers_eq number node hnode direction := by
    simp only [Digraph.addEdge, List.getElem?_modify] at hnode ⊢
    rw [numbersAt_concat]
    cases hold : g.nodes[number]? with
    | none => simp [hold] at hnode
    | some old =>
      have hnumbers := h.numbers_eq number old hold direction
      simp only [hold, Option.map_eq_map, Option.map_some, Option.some.injEq] at hnode
      subst hnode
      cases direction with
      | outgoing =>
        by_cases hs : source = number <;> by_cases ht : target = number <;>
          simp [hs, ht, numbers_link, hnumbers, Edge.near]
      | incoming =>
        by_cases hs : source = number <;> by_cases ht : target = number <;>
          simp [hs, ht, numbers_link, hnumbers, Edge.near]
  near_lt edge hedge direction := by
    simp only [Digraph.addEdge, List.length_modify]
    rcases List.mem_append.1 hedge with hedge | hedge
    · exact h.near_lt edge hedge direction
    · rw [List.mem_singleton] at hedge
      subst hedge
      cases direction
      · exact hsource
      · exact htarget

lemma Linked.withWeight (h : g.Linked) (place : ℕ) (weight : ω) :
    ({ g with edges := g.edges.modify place (Edge.withWeight weight) } : Digraph ν ω).Linked where
  numbers_eq number node hnode direction := by
    rw [numbersAt_eq_of_map_near (map_near_modify g.edges place weight direction)]
    exact h.numbers_eq number node hnode direction
  near_lt edge hedge direction := by
    have hmem : edge.near direction ∈ g.edges.map (·.near direction) := by
      rw [← map_near_modify g.edges place weight direction]
      exact List.mem_map_of_mem hedge
    obtain ⟨old, hold, hnear⟩ := List.mem_map.1 hmem
    rw [← hnear]
    exact h.near_lt old hold direction

lemma nodeWeights_addNode (g : Digraph ν ω) (weight : ν) :
    (g.addNode weight).2.nodeWeights = g.nodeWeights ++ [weight] := by
  simp [nodeWeights, addNode]

lemma nodeWeights_addEdge (g : Digraph ν ω) (source target : ℕ) (weight : ω) :
    (g.addEdge source target weight).nodeWeights = g.nodeWeights := by
  have hkept : ∀ (direction : Direction) (place : ℕ) (node : Node ν),
      (node.link direction place).weight = node.weight := by
    intro direction place node
    cases direction <;> rfl
  rw [nodeWeights, addEdge, map_modify_of_comp (hkept _ _), map_modify_of_comp (hkept _ _),
    ← nodeWeights]

/-- **What setting an edge changes.**  Either the weight of the edge between the two nodes is set in
place, or there was none, and a new edge is the last one. -/
lemma updateEdge_cases (h : g.Linked) (hnodup : (g.edges.map Edge.ends).Nodup)
    (source target : ℕ) (weight : ω) :
    (∃ place edge, g.edges[place]? = some edge ∧ edge.ends = (source, target) ∧
        g.updateEdge source target weight
          = { g with edges := g.edges.modify place (Edge.withWeight weight) }) ∨
      ((source, target) ∉ g.edges.map Edge.ends ∧
        g.updateEdge source target weight = g.addEdge source target weight) := by
  rw [updateEdge]
  cases hfound : g.findEdge? source target with
  | some place =>
    obtain ⟨edge, hedge, hends⟩ := h.of_findEdge? hfound
    exact Or.inl ⟨place, edge, hedge, hends, rfl⟩
  | none =>
    refine Or.inr ⟨fun hmem => ?_, rfl⟩
    obtain ⟨edge, hedge, hends⟩ := List.mem_map.1 hmem
    obtain ⟨place, hplace⟩ := List.getElem?_of_mem hedge
    rw [(h.findEdge?_iff hnodup).2 ⟨edge, hplace, hends⟩] at hfound
    cases hfound

lemma Linked.updateEdge (h : g.Linked) (hnodup : (g.edges.map Edge.ends).Nodup)
    (hsource : source < g.nodes.length) (htarget : target < g.nodes.length) (weight : ω) :
    (g.updateEdge source target weight).Linked := by
  rcases updateEdge_cases h hnodup source target weight with ⟨place, _, _, _, hset⟩ | ⟨_, hadded⟩
  · rw [hset]
    exact h.withWeight place weight
  · rw [hadded]
    exact h.addEdge hsource htarget weight

lemma nodeWeights_updateEdge (g : Digraph ν ω) (source target : ℕ) (weight : ω) :
    (g.updateEdge source target weight).nodeWeights = g.nodeWeights := by
  rw [updateEdge]
  split
  · rfl
  · exact nodeWeights_addEdge g source target weight

/-- No second edge comes to be between two nodes. -/
lemma ends_nodup_updateEdge (h : g.Linked) (hnodup : (g.edges.map Edge.ends).Nodup)
    (source target : ℕ) (weight : ω) :
    ((g.updateEdge source target weight).edges.map Edge.ends).Nodup := by
  rcases updateEdge_cases h hnodup source target weight with
    ⟨place, _, _, _, hset⟩ | ⟨hnew, hadded⟩
  · have hkept : ∀ edge : Edge ω, (edge.withWeight weight).ends = edge.ends := fun _ => rfl
    rw [hset]
    rwa [← map_modify_of_comp hkept g.edges place] at hnodup
  · rw [hadded, addEdge, List.map_append, List.map_singleton, ← List.concat_eq_append]
    exact hnodup.concat hnew

end Digraph

end BenchCover
