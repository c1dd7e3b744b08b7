import BenchCover.Proofs.Graph.Walk

/-!
# What a visitor sees

`CallGraph.visits` has the visits of a walk that nothing stops.  A visitor with a state of its own,
which may stop the walk, sees a part of them.

**Order.**  Functions are visited in the order of their distances (`pairwise_visits`): whatever is
behind a queue in the state of a search is at least as far as the first function of the queue.

**Visitors.**  A visitor goes on over some visits (`Visitor.GoesOver`) or stops at one of them
(`Visitor.stops_or_goesOver`).  To tell what it has seen it is made to note its visits
(`Visitor.noting`), which changes nothing else.

`CallGraph.walk_sees` has all of it for a walk.
-/

namespace BenchCover

variable {σ : Type}

/-! ## Visitors -/

namespace Visitor

/-- **A visitor goes on** over visits, from one of its states to another. -/
inductive GoesOver (visit : Visitor σ) : σ → List (Function × Nat) → σ → Prop
  | done {state : σ} : GoesOver visit state [] state
  | step {state next final : σ} {f : Function} {distance : Nat} {rest : List (Function × Nat)} :
      visit state f distance = .goOn next → GoesOver visit next rest final →
      GoesOver visit state ((f, distance) :: rest) final

/-- The visitor that notes its visits, in order, and otherwise does the same. -/
def noting (visit : Visitor σ) : Visitor (List (Function × Nat) × σ) :=
  fun (seen, state) f distance => match visit state f distance with
    | .goOn next => .goOn (seen ++ [(f, distance)], next)
    | .stop final => .stop (seen ++ [(f, distance)], final)

variable {visit : Visitor σ} {state final : σ} {trail : List (Function × Nat)}

/-- **A visitor goes over all visits, or it stops at one of them.** -/
theorem stops_or_goesOver (visit : Visitor σ) (state : σ) (trail : List (Function × Nat)) :
    (∃ final, visit.GoesOver state trail final) ∨
      ∃ front f distance back last final, trail = front ++ (f, distance) :: back ∧
        visit.GoesOver state front last ∧ visit last f distance = .stop final := by
  induction trail generalizing state with
  | nil => exact Or.inl ⟨state, .done⟩
  | cons first rest ih =>
    obtain ⟨f, distance⟩ := first
    cases hverdict : visit state f distance with
    | stop final => exact Or.inr ⟨[], f, distance, rest, state, final, rfl, .done, hverdict⟩
    | goOn next =>
      rcases ih next with ⟨final, hover⟩ | ⟨front, g, n, back, last, final, rfl, hover, hstop⟩
      · exact Or.inl ⟨final, .step hverdict hover⟩
      · exact Or.inr ⟨(f, distance) :: front, g, n, back, last, final, rfl, .step hverdict hover,
          hstop⟩

lemma GoesOver.follow_append (h : visit.GoesOver state trail final) (later : List (Function × Nat)) :
    CallGraph.follow visit state (trail ++ later) = CallGraph.follow visit final later := by
  induction h with
  | done => rfl
  | step hverdict _ ih =>
    rw [List.cons_append, CallGraph.follow, hverdict]
    exact ih

/-- A visitor that notes its visits goes on over the same ones. -/
lemma GoesOver.noting (h : visit.GoesOver state trail final) (seen : List (Function × Nat)) :
    visit.noting.GoesOver (seen, state) trail (seen ++ trail, final) := by
  induction h generalizing seen with
  | done => simpa using GoesOver.done
  | @step state next final f distance rest hverdict _ ih =>
    have hnoted : visit.noting (seen, state) f distance = .goOn (seen ++ [(f, distance)], next) := by
      rw [Visitor.noting, hverdict]
    have hrest := ih (seen ++ [(f, distance)])
    rw [List.append_assoc, List.singleton_append] at hrest
    exact .step hnoted hrest

end Visitor

namespace CallGraph

variable {g : CallGraph} {start : FunctionId} {unmet : List FunctionId}
  {queue : List (FunctionId × Nat)}

/-! ## The order of visits -/

/-- **What a trail visits is at least as far** as what is waiting in front. -/
lemma Searching.le_of_mem_trail (h : g.Searching start unmet queue) {n : Nat}
    (hqueue : ∀ entry ∈ queue, n ≤ entry.2) {visit : Function × Nat}
    (hvisit : visit ∈ g.trail unmet queue) : n ≤ visit.2 := by
  fun_induction g.trail unmet queue with
  | case1 => simp at hvisit
  | case2 unmet id distance queue hnone ih =>
    exact absurd (h.known _ List.mem_cons_self) (function?_eq_none_iff.1 hnone)
  | case3 unmet id distance queue f hsome found ih =>
    have hfirst : n ≤ distance := hqueue (id, distance) List.mem_cons_self
    rcases List.mem_cons.1 hvisit with rfl | hvisit
    · exact hfirst
    · refine ih h.step (fun entry hentry => ?_) hvisit
      rcases List.mem_append.1 hentry with hentry | hentry
      · exact hqueue entry (List.mem_cons_of_mem _ hentry)
      · obtain ⟨b, -, rfl⟩ := List.mem_map.1 hentry
        exact Nat.le_succ_of_le hfirst

/-- **A trail goes from near to far.** -/
lemma Searching.pairwise_trail (h : g.Searching start unmet queue) :
    (g.trail unmet queue).Pairwise (·.2 ≤ ·.2) := by
  fun_induction g.trail unmet queue with
  | case1 => exact .nil
  | case2 unmet id distance queue hnone ih =>
    exact absurd (h.known _ List.mem_cons_self) (function?_eq_none_iff.1 hnone)
  | case3 unmet id distance queue f hsome found ih =>
    refine List.pairwise_cons.2 ⟨fun visit hvisit => ?_, ih h.step⟩
    refine h.step.le_of_mem_trail (fun entry hentry => ?_) hvisit
    rcases List.mem_append.1 hentry with hentry | hentry
    · exact List.rel_of_pairwise_cons h.ordered hentry
    · obtain ⟨b, -, rfl⟩ := List.mem_map.1 hentry
      exact Nat.le_succ distance

lemma pairwise_visits (g : CallGraph) (start : FunctionId) :
    (g.visits start).Pairwise (·.2 ≤ ·.2) := by
  by_cases hstart : start ∈ g.ids
  · rw [visits_eq_trail hstart]
    exact (searching_start hstart).pairwise_trail
  · rw [visits_eq_nil hstart]
    exact .nil

/-! ## Walks with a visitor -/

/-- A walk is its visitor on the visits. -/
lemma walk_eq_follow (g : CallGraph) (start : FunctionId) (visit : Visitor σ) (state : σ) :
    g.walk start visit state = follow visit state (g.visits start) := by
  by_cases hstart : start ∈ g.ids
  · rw [visits_eq_trail hstart, walk, contains, if_pos (by simpa using hstart), walkFrom_eq_follow]
  · rw [visits_eq_nil hstart, walk, contains, if_neg (by simpa using hstart)]
    rfl

/-- What a visitor sees on a walk, in order. -/
def seen (g : CallGraph) (start : FunctionId) (visit : Visitor σ) (state : σ) :
    List (Function × Nat) :=
  (g.walk start visit.noting ([], state)).1.1

section Walks

variable {visit : Visitor σ} {state last final : σ}

lemma walk_of_goesOver (h : visit.GoesOver state (g.visits start) final) :
    g.walk start visit state = (final, none) := by
  have hfollow := h.follow_append []
  rw [List.append_nil] at hfollow
  rw [walk_eq_follow, hfollow]
  rfl

lemma seen_of_goesOver (h : visit.GoesOver state (g.visits start) final) :
    g.seen start visit state = g.visits start := by
  rw [seen, walk_of_goesOver (h.noting []), List.nil_append]

variable {front back : List (Function × Nat)} {f : Function} {distance : Nat}

lemma walk_of_stop (hvisits : g.visits start = front ++ (f, distance) :: back)
    (hfront : visit.GoesOver state front last) (hstop : visit last f distance = .stop final) :
    g.walk start visit state = (final, some f.id) := by
  rw [walk_eq_follow, hvisits, hfront.follow_append, follow, hstop]

lemma seen_of_stop (hvisits : g.visits start = front ++ (f, distance) :: back)
    (hfront : visit.GoesOver state front last) (hstop : visit last f distance = .stop final) :
    g.seen start visit state = front ++ [(f, distance)] := by
  have hnoted : visit.noting (front, last) f distance = .stop (front ++ [(f, distance)], final) := by
    rw [Visitor.noting, hstop]
  rw [seen, walk_of_stop hvisits (hfront.noting []) hnoted]

end Walks

/-! ## All in all -/

/-- **What walks from a start see.** -/
structure Sees (g : CallGraph) (start : FunctionId) : Prop where
  /-- From a start that is not in the graph no visitor sees anything. -/
  absent : start ∉ g.ids → g.visits start = [] ∧ ∀ {σ : Type} (visit : Visitor σ) (state : σ),
    g.walk start visit state = (state, none) ∧ g.seen start visit state = []
  /-- The functions that the start reaches are visited, each at the end of a shortest chain. -/
  visited : start ∈ g.ids → ∀ f n, (f, n) ∈ g.visits start ↔
    f ∈ g.functions ∧ g.IsDistance start f.id n
  reached : start ∈ g.ids → ∀ f, (∃ n, (f, n) ∈ g.visits start) ↔
    f ∈ g.functions ∧ g.Reaches start f.id
  once : ((g.visits start).map (·.1.id)).Nodup
  ordered : (g.visits start).Pairwise (·.2 ≤ ·.2)
  /-- A visitor that never stops sees all visits. -/
  whole : ∀ {σ : Type} (visit : Visitor σ) (state : σ),
    (∀ s f n, ∃ next, visit s f n = .goOn next) →
      g.seen start visit state = g.visits start ∧ (g.walk start visit state).2 = none
  /-- Any visitor goes over all visits, or it sees those up to the first one that it stops at. -/
  part : ∀ {σ : Type} (visit : Visitor σ) (state : σ),
    (∃ final, visit.GoesOver state (g.visits start) final ∧
      g.walk start visit state = (final, none) ∧ g.seen start visit state = g.visits start) ∨
    ∃ front f n back last final, g.visits start = front ++ (f, n) :: back ∧
      visit.GoesOver state front last ∧ visit last f n = .stop final ∧
      g.walk start visit state = (final, some f.id) ∧
      g.seen start visit state = front ++ [(f, n)]

lemma not_stops {visit : Visitor σ} (hgoes : ∀ s f n, ∃ next, visit s f n = .goOn next) (s final : σ)
    (f : Function) (n : Nat) : visit s f n ≠ .stop final := by
  obtain ⟨next, hnext⟩ := hgoes s f n
  simp [hnext]

/-- **A walk from a start** visits what the start reaches, each function once and the nearest ones
first, at the least number of calls; a visitor sees all of this, or the part up to the visit that it
stops at, and the walk tells the function of that visit. -/
theorem walk_sees (g : CallGraph) (start : FunctionId) : g.Sees start where
  absent hstart := by
    have hnone := visits_eq_nil hstart
    refine ⟨hnone, fun visit state => ?_⟩
    have hover : visit.GoesOver state (g.visits start) state := hnone ▸ .done
    exact ⟨walk_of_goesOver hover, (seen_of_goesOver hover).trans hnone⟩
  visited hstart _ _ := mem_visits_iff hstart
  reached hstart f := by
    rw [← mem_reachable_iff hstart, reachable, List.mem_map]
    constructor
    · rintro ⟨n, hvisit⟩
      exact ⟨(f, n), hvisit, rfl⟩
    · rintro ⟨⟨_, n⟩, hvisit, rfl⟩
      exact ⟨n, hvisit⟩
  once := by
    have hnodup := g.nodup_reachable start
    rwa [reachable, List.map_map] at hnodup
  ordered := g.pairwise_visits start
  whole visit state hgoes := by
    rcases visit.stops_or_goesOver state (g.visits start) with
      ⟨final, hover⟩ | ⟨_, f, n, _, last, final, -, -, hstop⟩
    · exact ⟨seen_of_goesOver hover, by rw [walk_of_goesOver hover]⟩
    · exact absurd hstop (not_stops hgoes last final f n)
  part visit state := by
    rcases visit.stops_or_goesOver state (g.visits start) with
      ⟨final, hover⟩ | ⟨front, f, n, back, last, final, hvisits, hfront, hstop⟩
    · exact Or.inl ⟨final, hover, walk_of_goesOver hover, seen_of_goesOver hover⟩
    · exact Or.inr ⟨front, f, n, back, last, final, hvisits, hfront, hstop,
        walk_of_stop hvisits hfront hstop, seen_of_stop hvisits hfront hstop⟩

end CallGraph

end BenchCover
