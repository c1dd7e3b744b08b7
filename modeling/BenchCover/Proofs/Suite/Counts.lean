import BenchCover.Proofs.Suite.Naming

/-!
# How often functions are counted

**Counts.**  A row counts each of its functions once, and adding a row to another one adds the
counts.  So the total of a suite counts, on each side, in how many of the rows a function is
(`Suite.count_total`).

**Counts by name.**  `NodeCounts.named` reads counts with the names of a registry in place of the
ids.  Counts of the same names that agree on each of them are read as the same map, whatever the ids
(`NodeCounts.exists_named`).
-/

namespace BenchCover

namespace NodeCounts

variable {counts counts' a b : NodeCounts} {id : FunctionId} {n : ℕ}

/-! ## Counts -/

/-- How often a function was counted. -/
def count (counts : NodeCounts) (id : FunctionId) : ℕ :=
  (counts.lookup id).getD 0

lemma count_of_notMem (h : id ∉ counts.keys) : counts.count id = 0 := by
  cases hlookup : counts.lookup id with
  | none => rw [count, hlookup, Option.getD_none]
  | some n => exact absurd (SortedMap.mem_keys_iff.2 ⟨n, hlookup⟩) h

lemma lookup_eq_some_iff : counts.lookup id = some n ↔ id ∈ counts.keys ∧ counts.count id = n := by
  constructor
  · intro h
    exact ⟨SortedMap.mem_keys_iff.2 ⟨n, h⟩, by rw [count, h, Option.getD_some]⟩
  · rintro ⟨hid, rfl⟩
    obtain ⟨n, hn⟩ := SortedMap.mem_keys_iff.1 hid
    rw [count, hn, Option.getD_some]

lemma count_foldl_upsert {entries : List (FunctionId × ℕ)} (hnodup : (entries.map (·.1)).Nodup) :
    count (entries.foldl (fun counts (id, n) => counts.upsert id (·.getD 0 + n)) a) id
      = a.count id + (SortedMap.lookupEntry id entries).getD 0 := by
  induction entries generalizing a with
  | nil => rfl
  | cons entry rest ih =>
    obtain ⟨other, n⟩ := entry
    rw [List.map_cons, List.nodup_cons] at hnodup
    rw [List.foldl_cons, ih hnodup.2, count, count, SortedMap.lookup_upsert, SortedMap.lookupEntry]
    split_ifs with hsame
    · subst hsame
      have hnone : SortedMap.lookupEntry other rest = none := by
        cases hlookup : SortedMap.lookupEntry other rest with
        | none => rfl
        | some m =>
          have hentry := (SortedMap.lookupEntry_eq_some_iff hnodup.2).1 hlookup
          exact absurd (List.mem_map_of_mem hentry) hnodup.1
      rw [hnone, Option.getD_some, Option.getD_some, Option.getD_none, Nat.add_zero]
    · rfl

lemma count_add (a b : NodeCounts) (id : FunctionId) :
    (a.add b).count id = a.count id + b.count id :=
  count_foldl_upsert b.keys_nodup

/-- The nodes of a graph are counted once. -/
lemma count_ofGraph {projects : ProjectPrefixes} {projectOnly : Bool} {g : CallGraph}
    (hid : id ∈ (ofGraph projects projectOnly g).keys) :
    (ofGraph projects projectOnly g).count id = 1 := by
  obtain ⟨n, hn⟩ := SortedMap.mem_keys_iff.1 hid
  have hnodup : ((g.functions.filter fun f => !projectOnly || projects.covers f.name).map
      (·.id)).Nodup := g.ids_nodup.sublist (List.filter_sublist.map _)
  rw [ofGraph, SortedMap.lookup_ofList_iff (by rwa [List.map_map])] at hn
  obtain ⟨f, -, hentry⟩ := List.mem_map.1 hn
  obtain ⟨rfl, rfl⟩ := Prod.mk.inj hentry
  exact (lookup_eq_some_iff.1 ((SortedMap.lookup_ofList_iff (by rwa [List.map_map])).2 hn)).2

lemma count_shared (hid : id ∈ (a.shared b).keys) : (a.shared b).count id = 1 := by
  obtain ⟨n, hn⟩ := SortedMap.mem_keys_iff.1 hid
  have hone := hn
  rw [shared, SortedMap.lookup_map] at hone
  obtain ⟨-, -, rfl⟩ := Option.map_eq_some_iff.1 hone
  exact (lookup_eq_some_iff.1 hn).2

/-! ## Counts by name -/

/-- **Counts with names in place of ids.**  An id that the registry does not know is a fault. -/
def named (registry : Registry) (counts : NodeCounts) :
    Except UnknownFunction (SortedMap String Nat) := do
  let entries ← counts.entries.mapM fun (id, n) => return (← registry.name id, n)
  return .ofList entries

variable {registry registry' : Registry} {p : String → Prop}

lemma mapM_name_eq {nameOf : FunctionId → String} {entries : List (FunctionId × ℕ)}
    (hname : ∀ entry ∈ entries, registry.name entry.1 = .ok (nameOf entry.1)) :
    (entries.mapM fun (id, n) => return (← registry.name id, n))
      = Except.ok (entries.map fun (id, n) => (nameOf id, n)) := by
  induction entries with
  | nil => rfl
  | cons entry rest ih =>
    have hrest := ih fun entry hentry => hname entry (List.mem_cons_of_mem _ hentry)
    simp only [List.mapM_cons, hrest, hname entry List.mem_cons_self]
    rfl

/-- **Counts of known functions are read by name**, each under the name that its id stands for. -/
lemma exists_named (hknown : ∀ id ∈ counts.keys, ∃ name, registry.name id = .ok name) :
    ∃ byName, counts.named registry = .ok byName ∧ ∀ name n, byName.lookup name = some n ↔
      ∃ id, registry.name id = .ok name ∧ counts.lookup id = some n := by
  choose! nameOf hnameOf using hknown
  have hentries : ∀ entry ∈ counts.entries, registry.name entry.1 = .ok (nameOf entry.1) :=
    fun entry hentry => hnameOf entry.1 (List.mem_map_of_mem hentry)
  have hnodup : ((counts.entries.map fun (id, n) => (nameOf id, n)).map (·.1)).Nodup := by
    have hmap : (counts.entries.map fun (id, n) => (nameOf id, n)).map (·.1)
        = counts.keys.map nameOf := by
      rw [SortedMap.keys, List.map_map, List.map_map]
      rfl
    rw [hmap]
    refine List.Nodup.map_on (fun id hid id' hid' hsame => ?_) counts.keys_nodup
    exact Registry.id_unique (hnameOf id hid) (hsame ▸ hnameOf id' hid')
  refine ⟨_, by rw [named, mapM_name_eq hentries]; rfl, fun name n => ?_⟩
  rw [SortedMap.lookup_ofList_iff hnodup]
  simp only [List.mem_map, Prod.exists, Prod.mk.injEq, SortedMap.lookup_eq_some_iff]
  constructor
  · rintro ⟨id, m, hentry, rfl, rfl⟩
    exact ⟨id, hentries _ hentry, hentry⟩
  · rintro ⟨id, hname, hentry⟩
    exact ⟨id, n, hentry, Except.ok.inj ((hentries _ hentry).symm.trans hname), rfl⟩

/-- **Counts of the same names are read as the same map**, if they agree on each name. -/
theorem exists_named_of_spells (h : registry.Spells counts.keySet p)
    (h' : registry'.Spells counts'.keySet p)
    (hcount : ∀ id id' name, p name → registry.name id = .ok name → registry'.name id' = .ok name →
      counts.count id = counts'.count id') :
    ∃ byName, counts.named registry = .ok byName ∧ counts'.named registry' = .ok byName := by
  have hknown : ∀ {registry : Registry} {counts : NodeCounts}, registry.Spells counts.keySet p →
      ∀ id ∈ counts.keys, ∃ name, registry.name id = .ok name := by
    intro registry counts h id hid
    obtain ⟨name, hname, -⟩ := (h.mem_iff id).1 (SortedMap.mem_keySet.2 hid)
    exact ⟨name, hname⟩
  have hread : ∀ {registry : Registry} {counts : NodeCounts}, registry.Spells counts.keySet p →
      ∀ name n, (∃ id, registry.name id = .ok name ∧ counts.lookup id = some n) ↔
        p name ∧ ∃ id, registry.name id = .ok name ∧ counts.count id = n := by
    intro registry counts h name n
    constructor
    · rintro ⟨id, hname, hlookup⟩
      obtain ⟨hid, hn⟩ := lookup_eq_some_iff.1 hlookup
      obtain ⟨other, hother, hp⟩ := (h.mem_iff id).1 (SortedMap.mem_keySet.2 hid)
      obtain rfl : other = name := Except.ok.inj (hother.symm.trans hname)
      exact ⟨hp, id, hname, hn⟩
    · rintro ⟨hp, id, hname, hn⟩
      have hid := SortedMap.mem_keySet.1 (h.mem_of_name hname hp)
      exact ⟨id, hname, lookup_eq_some_iff.2 ⟨hid, hn⟩⟩
  obtain ⟨byName, hok, hlookup⟩ := exists_named (hknown h)
  obtain ⟨byName', hok', hlookup'⟩ := exists_named (hknown h')
  suffices hsame : byName = byName' from ⟨byName, hok, hsame ▸ hok'⟩
  refine SortedMap.eq_of_lookup fun name => Option.ext fun n => ?_
  rw [hlookup, hlookup', hread h, hread h']
  refine and_congr_right fun hp => ?_
  obtain ⟨id, hname⟩ := h.known name hp
  obtain ⟨id', hname'⟩ := h'.known name hp
  have hids : ∀ {registry : Registry} {counts : NodeCounts} {id : FunctionId},
      registry.name id = .ok name →
        ((∃ id, registry.name id = .ok name ∧ counts.count id = n) ↔ counts.count id = n) := by
    intro registry counts id hname
    constructor
    · rintro ⟨other, hother, hn⟩
      rwa [Registry.id_unique hname hother]
    · exact fun hn => ⟨id, hname, hn⟩
  rw [hids hname, hids hname', hcount id id' name hp hname hname']

end NodeCounts

/-! ## Rows and totals -/

namespace NodeOverlap

variable {overlap other : NodeOverlap} {side : OverlapSide} {id : FunctionId}

lemma count_add : ((overlap.add other).nodes side).count id
    = (overlap.nodes side).count id + (other.nodes side).count id := by
  cases side <;> exact NodeCounts.count_add _ _ _

/-- A row counts each of its functions once. -/
lemma count_between {projects : ProjectPrefixes} {projectOnly : Bool}
    {systemName microName : String} {system micro : CallGraph}
    (hid : id ∈ ((between projects projectOnly systemName microName system micro).nodes side).keys) :
    ((between projects projectOnly systemName microName system micro).nodes side).count id = 1 := by
  cases side with
  | system => exact NodeCounts.count_ofGraph hid
  | micro => exact NodeCounts.count_ofGraph hid
  | shared => exact NodeCounts.count_shared hid

/-- Rows that count each function once add one for every row that has it. -/
lemma count_foldl_add {rows : List NodeOverlap}
    (honce : ∀ row ∈ rows, id ∈ (row.nodes side).keys → (row.nodes side).count id = 1) :
    ((rows.foldl add overlap).nodes side).count id
      = (overlap.nodes side).count id + rows.countP fun row => id ∈ (row.nodes side).keys := by
  induction rows generalizing overlap with
  | nil => rfl
  | cons row rest ih =>
    have hrow : (row.nodes side).count id = if id ∈ (row.nodes side).keys then 1 else 0 := by
      split_ifs with hid
      · exact honce row List.mem_cons_self hid
      · exact NodeCounts.count_of_notMem hid
    rw [List.foldl_cons, ih fun row' hrow' => honce row' (List.mem_cons_of_mem _ hrow'), count_add,
      hrow, List.countP_cons]
    simp only [decide_eq_true_eq]
    omega

end NodeOverlap

/-- **The total of a suite** counts in how many rows a function is. -/
theorem Suite.count_total (suite : Suite) (projects : ProjectPrefixes) (projectOnly : Bool)
    (side : OverlapSide) (id : FunctionId) :
    ((suite.overlap projects projectOnly).total.nodes side).count id
      = suite.micros.entries.countP fun (key, micro) =>
          id ∈ ((NodeOverlap.between projects projectOnly suite.system key suite.systemGraph
            micro).nodes side).keys := by
  have hempty : ((NodeOverlap.empty suite.system allMicros).nodes side).count id = 0 :=
    NodeCounts.count_of_notMem NodeOverlap.mem_nodes_empty
  simp only [overlap, NodeOverlap.nodes_withShare]
  rw [NodeOverlap.count_foldl_add, hempty, Nat.zero_add, SortedMap.values, SortedMap.map,
    List.map_map, List.countP_map]
  · rfl
  · intro row hrow hid
    obtain ⟨⟨key, _⟩, hentry, rfl⟩ := List.mem_map.1 hrow
    obtain ⟨⟨_, micro⟩, -, hsame⟩ := List.mem_map.1 hentry
    obtain ⟨rfl, rfl⟩ := Prod.mk.inj hsame
    exact NodeOverlap.count_between hid

end BenchCover
