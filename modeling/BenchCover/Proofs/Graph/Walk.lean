import BenchCover.Graph.Walk
import BenchCover.Proofs.Graph.Distance

/-!
# What a walk visits

A visitor cannot change the way of a walk, it can only cut it short.  So a walk is taken apart into
the **trail**, the list of all functions that the walk would visit, and the visitor that follows it
(`walkFrom_eq_follow`).  Everything about distances is then a statement about trails.

`CallGraph.Searching` is the invariant of the search.  The functions of the graph are unmet, or in
the queue, or done, and the third kind needs no list of its own: whatever calls an unmet function is
unmet itself or still waiting in the queue.  Hence a chain of calls from the start to an unmet
function passes through the queue (`Searching.lt_of_steps`), which gives both the exact distance of
the functions met next and the completeness of the walk.

The main result is `mem_visits_iff`: the visits from a start are the functions it reaches, each with
its distance.
-/

namespace BenchCover

namespace CallGraph

variable {g : CallGraph} {start : FunctionId}

/-! ## Meeting neighbours -/

/-- Meeting neighbours only moves functions. -/
lemma perm_meet (neighbours unmet : List FunctionId) :
    ((meet neighbours unmet).1 ++ (meet neighbours unmet).2).Perm unmet := by
  induction neighbours generalizing unmet with
  | nil => simp [meet]
  | cons id rest ih =>
    rw [meet]
    split_ifs with hmem
    · exact ((ih (unmet.erase id)).cons id).trans (List.perm_cons_erase hmem).symm
    · exact ih unmet

lemma mem_meet_or {neighbours unmet : List FunctionId} {id : FunctionId} :
    id ∈ (meet neighbours unmet).1 ∨ id ∈ (meet neighbours unmet).2 ↔ id ∈ unmet := by
  rw [← List.mem_append, (perm_meet neighbours unmet).mem_iff]

/-- The functions met are the neighbours that were unmet. -/
lemma mem_meet_fst {neighbours unmet : List FunctionId} {id : FunctionId} :
    id ∈ (meet neighbours unmet).1 ↔ id ∈ neighbours ∧ id ∈ unmet := by
  induction neighbours generalizing unmet with
  | nil => simp [meet]
  | cons other rest ih =>
    rw [meet]
    by_cases hsame : id = other
    · subst hsame
      split_ifs with hmem
      · simp [hmem]
      · simp [ih, hmem]
    · split_ifs with hmem
      · simp [ih, hsame, List.mem_erase_of_ne hsame]
      · simp [ih, hsame]

lemma mem_meet_snd {neighbours unmet : List FunctionId} {id : FunctionId} (hnodup : unmet.Nodup) :
    id ∈ (meet neighbours unmet).2 ↔ id ∈ unmet ∧ id ∉ neighbours := by
  have hparts := (perm_meet neighbours unmet).nodup_iff.2 hnodup
  constructor
  · intro hmem
    have hunmet := mem_meet_or.1 (Or.inr hmem)
    refine ⟨hunmet, fun hneighbour => ?_⟩
    exact (List.nodup_append.1 hparts).2.2 id (mem_meet_fst.2 ⟨hneighbour, hunmet⟩) id hmem rfl
  · rintro ⟨hunmet, hneighbour⟩
    rcases mem_meet_or.2 hunmet with hmem | hmem
    · exact absurd (mem_meet_fst.1 hmem).1 hneighbour
    · exact hmem

lemma map_fst_met (met : List FunctionId) (distance : Nat) :
    (met.map fun id => (id, distance)).map Prod.fst = met := by
  simp [List.map_map, Function.comp_def]

/-- What is open after neighbours were met, in the queue or unmet, was open before. -/
lemma perm_open (neighbours unmet : List FunctionId) (queue : List (FunctionId × Nat))
    (distance : Nat) :
    ((queue ++ (meet neighbours unmet).1.map fun id => (id, distance)).map (·.1)
      ++ (meet neighbours unmet).2).Perm (queue.map (·.1) ++ unmet) := by
  rw [List.map_append, map_fst_met, List.append_assoc]
  exact (perm_meet neighbours unmet).append_left _

/-! ## Trails -/

/-- **The trail of a walk**: the functions it visits if nothing stops it, with their distances. -/
def trail (g : CallGraph) (unmet : List FunctionId) (queue : List (FunctionId × Nat)) :
    List (Function × Nat) :=
  match queue with
  | [] => []
  | (id, distance) :: queue =>
    match g.function? id with
    | none => trail g unmet queue
    | some f =>
      let found := meet (g.callees id) unmet
      (f, distance) ::
        trail g found.2 (queue ++ found.1.map fun id => (id, distance + 1))
termination_by queue.length + unmet.length
decreasing_by
  · simp
  · have := length_meet (g.callees id) unmet
    simp only [List.length_append, List.length_map, List.length_cons]
    omega

/-- A visitor that follows a trail until it stops. -/
def follow {σ : Type} (visit : Visitor σ) (state : σ) :
    List (Function × Nat) → σ × Option FunctionId
  | [] => (state, none)
  | (f, distance) :: rest =>
    match visit state f distance with
    | .stop state => (state, some f.id)
    | .goOn state => follow visit state rest

/-- **A walk is its visitor on the trail.** -/
theorem walkFrom_eq_follow {σ : Type} (g : CallGraph) (visit : Visitor σ)
    (unmet : List FunctionId) (state : σ) (queue : List (FunctionId × Nat)) :
    g.walkFrom visit unmet state queue = follow visit state (g.trail unmet queue) := by
  fun_induction g.walkFrom visit unmet state queue with
  | case1 => simp [trail, follow]
  | case2 unmet state id distance queue hnone ih => rw [trail, hnone, ih]
  | case3 unmet state id distance queue f hsome state' hstop =>
    rw [trail, hsome]
    simp [follow, hstop, (function?_eq_some_iff.1 hsome).2]
  | case4 unmet state id distance queue f hsome state' hgoOn found ih =>
    rw [trail, hsome]
    simp only [follow, hgoOn]
    exact ih

lemma follow_collect (trail visited : List (Function × Nat)) :
    (follow (fun visited f distance => .goOn ((f, distance) :: visited)) visited trail).1
      = trail.reverse ++ visited := by
  induction trail generalizing visited with
  | nil => simp [follow]
  | cons visit rest ih => simp [follow, ih]

/-- The visits of a walk are its trail. -/
lemma visits_eq_trail (hstart : start ∈ g.ids) :
    g.visits start = g.trail (g.ids.erase start) [(start, 0)] := by
  simp [visits, walk, contains, hstart, walkFrom_eq_follow, follow_collect]

lemma visits_eq_nil (hstart : start ∉ g.ids) : g.visits start = [] := by
  simp [visits, walk, contains, hstart]

/-! ## The invariant of the search -/

/-- **The state of a search from a start**: what is unmet, and the queue with its distances. -/
structure Searching (g : CallGraph) (start : FunctionId) (unmet : List FunctionId)
    (queue : List (FunctionId × Nat)) : Prop where
  /-- No function is in two places. -/
  nodup : (queue.map (·.1) ++ unmet).Nodup
  known : ∀ entry ∈ queue, entry.1 ∈ g.ids
  started : start ∉ unmet
  exact : ∀ entry ∈ queue, g.IsDistance start entry.1 entry.2
  ordered : queue.Pairwise (·.2 ≤ ·.2)
  /-- The queue spans two distances at most. -/
  span : ∀ entry ∈ queue, ∀ other ∈ queue, other.2 ≤ entry.2 + 1
  /-- Whatever calls an unmet function is not done yet. -/
  closed : ∀ a b, b ∈ g.callees a → b ∈ unmet → a ∈ unmet ∨ a ∈ queue.map (·.1)

lemma searching_start (hstart : start ∈ g.ids) :
    g.Searching start (g.ids.erase start) [(start, 0)] where
  nodup := by
    have hnodup : g.ids.Nodup := g.ids_nodup
    simpa using ⟨hnodup.not_mem_erase, hnodup.erase start⟩
  known := by simpa using hstart
  started := by
    have hnodup : g.ids.Nodup := g.ids_nodup
    exact hnodup.not_mem_erase
  exact := by
    simpa using ⟨Steps.start, fun n _ => Nat.zero_le n⟩
  ordered := by simp
  span := by simp
  closed := by
    intro a b hcall _
    by_cases hsame : a = start
    · simp [hsame]
    · exact Or.inl ((List.mem_erase_of_ne hsame).2 (mem_ids_of_mem_callees_left hcall))

namespace Searching

variable {unmet : List FunctionId} {queue : List (FunctionId × Nat)} {id : FunctionId}
  {distance : Nat}

/-- A chain of calls to an unmet function passes through the queue, so it is longer than the
distance of the first function there. -/
lemma lt_of_steps (h : g.Searching start unmet ((id, distance) :: queue)) {n : ℕ}
    {b : FunctionId} (hsteps : g.Steps start n b) (hunmet : b ∈ unmet) : distance < n := by
  induction hsteps with
  | start => exact absurd hunmet h.started
  | @call n a b hsteps hcall ih =>
    rcases h.closed a b hcall hunmet with ha | ha
    · exact Nat.lt_succ_of_lt (ih ha)
    · obtain ⟨entry, hentry, rfl⟩ := List.mem_map.1 ha
      have hexact : entry.2 ≤ n := (h.exact entry hentry).2 hsteps
      have hfirst : distance ≤ entry.2 := by
        rcases List.mem_cons.1 hentry with rfl | hentry
        · exact le_refl _
        · exact List.rel_of_pairwise_cons h.ordered hentry
      omega

/-- With an empty queue nothing unmet is reachable. -/
lemma not_reaches (h : g.Searching start unmet []) {b : FunctionId} (hunmet : b ∈ unmet) :
    ¬ g.Reaches start b := by
  rintro ⟨n, hsteps⟩
  induction hsteps with
  | start => exact h.started hunmet
  | @call n a b _ hcall ih =>
    rcases h.closed a b hcall hunmet with ha | ha
    · exact ih ha
    · simp at ha

/-- A function that is met now has the distance that the search gives it. -/
lemma isDistance_of_met (h : g.Searching start unmet ((id, distance) :: queue)) {b : FunctionId}
    (hmet : b ∈ (meet (g.callees id) unmet).1) : g.IsDistance start b (distance + 1) := by
  obtain ⟨hcall, hunmet⟩ := mem_meet_fst.1 hmet
  have hfirst := h.exact (id, distance) List.mem_cons_self
  exact ⟨hfirst.1.call hcall, fun n hn => h.lt_of_steps hn hunmet⟩

/-- **One visit keeps the invariant.** -/
lemma step (h : g.Searching start unmet ((id, distance) :: queue)) :
    g.Searching start (meet (g.callees id) unmet).2
      (queue ++ (meet (g.callees id) unmet).1.map fun id => (id, distance + 1)) := by
  have hunmet : unmet.Nodup := (List.nodup_append.1 h.nodup).2.1
  have hfirst : ∀ entry ∈ queue, distance ≤ entry.2 :=
    fun entry hentry => List.rel_of_pairwise_cons h.ordered hentry
  have hlast : ∀ entry ∈ queue, entry.2 ≤ distance + 1 :=
    fun entry hentry => h.span (id, distance) List.mem_cons_self entry (List.mem_cons_of_mem _ hentry)
  refine ⟨?_, ?_, ?_, ?_, ?_, ?_, ?_⟩
  · exact (perm_open (g.callees id) unmet queue _).nodup_iff.2 (List.nodup_cons.1 h.nodup).2
  · intro entry hentry
    rcases List.mem_append.1 hentry with hentry | hentry
    · exact h.known entry (List.mem_cons_of_mem _ hentry)
    · obtain ⟨b, hmet, rfl⟩ := List.mem_map.1 hentry
      exact mem_ids_of_mem_callees (mem_meet_fst.1 hmet).1
  · exact fun hstart => h.started (mem_meet_or.1 (Or.inr hstart))
  · intro entry hentry
    rcases List.mem_append.1 hentry with hentry | hentry
    · exact h.exact entry (List.mem_cons_of_mem _ hentry)
    · obtain ⟨b, hmet, rfl⟩ := List.mem_map.1 hentry
      exact h.isDistance_of_met hmet
  · rw [List.pairwise_append]
    refine ⟨h.ordered.of_cons, ?_, ?_⟩
    · exact List.pairwise_map.2 (List.pairwise_of_forall fun _ _ => le_refl _)
    · intro entry hentry other hother
      obtain ⟨b, _, rfl⟩ := List.mem_map.1 hother
      exact hlast entry hentry
  · intro entry hentry other hother
    rcases List.mem_append.1 hentry with hentry | hentry <;>
      rcases List.mem_append.1 hother with hother | hother
    · exact h.span entry (List.mem_cons_of_mem _ hentry) other (List.mem_cons_of_mem _ hother)
    · obtain ⟨b, _, rfl⟩ := List.mem_map.1 hother
      exact Nat.succ_le_succ (hfirst entry hentry)
    · obtain ⟨b, _, rfl⟩ := List.mem_map.1 hentry
      exact Nat.le_succ_of_le (hlast other hother)
    · obtain ⟨b, _, rfl⟩ := List.mem_map.1 hentry
      obtain ⟨c, _, rfl⟩ := List.mem_map.1 hother
      exact Nat.le_succ _
  · intro a b hcall hb
    obtain ⟨hb, hnew⟩ := (mem_meet_snd hunmet).1 hb
    have hne : a ≠ id := fun hsame => hnew (hsame ▸ hcall)
    rw [List.map_append, map_fst_met, List.mem_append]
    rcases h.closed a b hcall hb with ha | ha
    · rcases mem_meet_or.2 ha with ha | ha
      · exact Or.inr (Or.inr ha)
      · exact Or.inl ha
    · rw [List.map_cons, List.mem_cons] at ha
      exact Or.inr (Or.inl (ha.resolve_left hne))

/-- **A trail has nothing but functions at their distance.** -/
lemma sound (h : g.Searching start unmet queue) {visit : Function × Nat}
    (hvisit : visit ∈ g.trail unmet queue) :
    visit.1 ∈ g.functions ∧ g.IsDistance start visit.1.id visit.2 := by
  fun_induction g.trail unmet queue with
  | case1 => simp at hvisit
  | case2 unmet id distance queue hnone ih =>
    exact absurd (h.known _ List.mem_cons_self) (function?_eq_none_iff.1 hnone)
  | case3 unmet id distance queue f hsome found ih =>
    obtain ⟨hf, rfl⟩ := function?_eq_some_iff.1 hsome
    rcases List.mem_cons.1 hvisit with rfl | hvisit
    · exact ⟨hf, h.exact _ List.mem_cons_self⟩
    · exact ih h.step hvisit

/-- **A trail misses nothing**: what is reachable and open is on it. -/
lemma complete (h : g.Searching start unmet queue) {b : FunctionId} (hreach : g.Reaches start b)
    (hopen : b ∈ queue.map (·.1) ++ unmet) : b ∈ (g.trail unmet queue).map (·.1.id) := by
  fun_induction g.trail unmet queue with
  | case1 => exact absurd hreach (h.not_reaches (by simpa using hopen))
  | case2 unmet id distance queue hnone ih =>
    exact absurd (h.known _ List.mem_cons_self) (function?_eq_none_iff.1 hnone)
  | case3 unmet id distance queue f hsome found ih =>
    obtain ⟨-, rfl⟩ := function?_eq_some_iff.1 hsome
    rw [List.map_cons, List.mem_cons]
    rcases List.mem_cons.1 hopen with hfirst | hopen
    · exact Or.inl hfirst
    · exact Or.inr (ih h.step ((perm_open _ _ queue _).mem_iff.2 hopen))

lemma mem_open_of_mem_trail {b : FunctionId} (hb : b ∈ (g.trail unmet queue).map (·.1.id)) :
    b ∈ queue.map (·.1) ++ unmet := by
  fun_induction g.trail unmet queue with
  | case1 => simp at hb
  | case2 unmet id distance queue hnone ih => exact List.mem_cons_of_mem _ (ih hb)
  | case3 unmet id distance queue f hsome found ih =>
    obtain ⟨-, rfl⟩ := function?_eq_some_iff.1 hsome
    rcases List.mem_cons.1 hb with rfl | hb
    · exact List.mem_cons_self
    · exact List.mem_cons_of_mem _ ((perm_open _ _ queue _).mem_iff.1 (ih hb))

/-- **A trail visits no function twice.** -/
lemma nodup_trail (h : g.Searching start unmet queue) :
    ((g.trail unmet queue).map (·.1.id)).Nodup := by
  fun_induction g.trail unmet queue with
  | case1 => simp
  | case2 unmet id distance queue hnone ih =>
    exact absurd (h.known _ List.mem_cons_self) (function?_eq_none_iff.1 hnone)
  | case3 unmet id distance queue f hsome found ih =>
    obtain ⟨-, rfl⟩ := function?_eq_some_iff.1 hsome
    rw [List.map_cons, List.nodup_cons]
    refine ⟨fun hagain => ?_, ih h.step⟩
    have hopen := (perm_open _ _ queue _).mem_iff.1 (mem_open_of_mem_trail hagain)
    exact (List.nodup_cons.1 h.nodup).1 hopen

end Searching

/-! ## Visits -/

/-- **The visits from a start** are the functions that it reaches, each at its distance. -/
theorem mem_visits_iff (hstart : start ∈ g.ids) {f : Function} {n : Nat} :
    (f, n) ∈ g.visits start ↔ f ∈ g.functions ∧ g.IsDistance start f.id n := by
  have hsearch := searching_start hstart
  rw [visits_eq_trail hstart]
  constructor
  · exact fun hvisit => hsearch.sound hvisit
  · rintro ⟨hf, hdistance⟩
    have hopen : f.id ∈ [(start, 0)].map Prod.fst ++ g.ids.erase start := by
      by_cases hsame : f.id = start
      · simp [hsame]
      · have hmem : f.id ∈ g.ids := mem_ids_iff.2 ⟨f, hf, rfl⟩
        exact List.mem_append_right _ ((List.mem_erase_of_ne hsame).2 hmem)
    obtain ⟨visit, hvisit, hid⟩ := List.mem_map.1 (hsearch.complete hdistance.reaches hopen)
    obtain ⟨hmem, hexact⟩ := hsearch.sound hvisit
    have hfunction : visit.1 = f := eq_of_id_eq hmem hf hid
    have hlength : visit.2 = n := (hid ▸ hexact).unique hdistance
    rwa [show (f, n) = visit from (Prod.ext hfunction hlength).symm]

/-- The functions of a walk are those that the start reaches. -/
theorem mem_reachable_iff (hstart : start ∈ g.ids) {f : Function} :
    f ∈ g.reachable start ↔ f ∈ g.functions ∧ g.Reaches start f.id := by
  rw [reachable, List.mem_map]
  constructor
  · rintro ⟨⟨h, n⟩, hvisit, rfl⟩
    obtain ⟨hf, hdistance⟩ := (mem_visits_iff hstart).1 hvisit
    exact ⟨hf, hdistance.reaches⟩
  · rintro ⟨hf, hreach⟩
    obtain ⟨n, hdistance⟩ := hreach.exists_isDistance
    exact ⟨(f, n), (mem_visits_iff hstart).2 ⟨hf, hdistance⟩, rfl⟩

lemma nodup_reachable (g : CallGraph) (start : FunctionId) :
    ((g.reachable start).map (·.id)).Nodup := by
  rw [reachable, List.map_map]
  by_cases hstart : start ∈ g.ids
  · rw [visits_eq_trail hstart]
    exact (searching_start hstart).nodup_trail
  · simp [visits_eq_nil hstart]

end CallGraph

end BenchCover
