import BenchCover.Function.NameTable
import BenchCover.Proofs.Function.Registry

/-!
# Tables of names stay in step

A table says one thing in three places: in the map from ids to names, in the map from names to ids,
and in the counter of the next free id.

**In step.**  `NameTable.InStep` says what holds the three together: each map undoes the other, the
ids in use are those below the counter, and names in use are trimmed.

**Registries.**  `NameTable.Represents` relates a table to the registry with the same names.  The
empty table and the empty registry are related, registering a name keeps that and answers alike
(`Represents.register`), and asking changes nothing and is answered alike (`Represents.run_name`
and what follows it).  A table that represents a registry is in step (`Represents.inStep`).

**Histories.**  What a table answers after some names were registered with it is told by the
distinct ones of these, trimmed: `Represents.tells`.
-/

namespace BenchCover

namespace NameTable

variable {table : NameTable} {registry : Registry} {history : List String} {name : String}
  {id : FunctionId}

/-! ## In step -/

/-- **The two maps and the counter are in step.** -/
structure InStep (table : NameTable) : Prop where
  /-- Each map undoes the other. -/
  inverse : ∀ id name, table.nameOf.lookup id = some name ↔ table.idOf.lookup name = some id
  /-- The ids in use are those below the counter. -/
  known_iff : ∀ id, (∃ name, table.nameOf.lookup id = some name) ↔ 0 ≤ id ∧ id < table.next
  size_eq : (table.nameOf.size : Int) = table.next
  trimmed : ∀ name id, table.idOf.lookup name = some id → Text.trimmed name = name

/-! ## Registries -/

/-- **A table with the names of a registry.** -/
structure Represents (table : NameTable) (registry : Registry) : Prop where
  next_eq : table.next = registry.size
  nameOf_iff : ∀ id name, table.nameOf.lookup id = some name ↔ registry.name id = .ok name
  idOf_iff : ∀ name id, table.idOf.lookup name = some id ↔ registry.name id = .ok name
  size_eq : table.nameOf.size = registry.size

lemma represents_empty : Represents empty .empty := by
  have hnone : ∀ id name, ¬ Registry.empty.name id = .ok name := by
    intro id name hname
    obtain ⟨n, -, hn⟩ := Registry.name_eq_ok_iff.1 hname
    cases hn
  exact {
    next_eq := rfl
    nameOf_iff := fun id name => iff_of_false (fun hname => by cases hname) (hnone id name)
    idOf_iff := fun name id => iff_of_false (fun hid => by cases hid) (hnone id name)
    size_eq := rfl }

lemma Represents.inStep (h : Represents table registry) : InStep table where
  inverse id name := by rw [h.nameOf_iff, h.idOf_iff]
  known_iff id := by simp only [h.nameOf_iff, Registry.exists_name_iff, h.next_eq]
  size_eq := by rw [h.next_eq, h.size_eq]
  trimmed name id hid := Registry.trimmed_of_name ((h.idOf_iff name id).1 hid)

/-! ### Registering a name -/

lemma run_register (name : String) (table : NameTable) : (register name).run table
    = match table.idOf.lookup (Text.trimmed name) with
      | some id => (id, table)
      | none => (table.next,
        { next := table.next + 1
          nameOf := table.nameOf.insert table.next (Text.trimmed name)
          idOf := table.idOf.insert (Text.trimmed name) table.next }) := by
  simp only [register, StateT.run_bind, StateT.run_get, pure_bind]
  cases hid : table.idOf.lookup (Text.trimmed name) with
  | some id => rfl
  | none =>
    simp only [StateT.run_bind, StateT.run_get, pure_bind, hid]
    rfl

lemma Represents.idOf_eq_none (h : Represents table registry) (hnew : name ∉ registry.names) :
    table.idOf.lookup name = none := by
  rw [Option.eq_none_iff_forall_ne_some]
  intro id hid
  exact hnew (Registry.mem_names_iff.2 ⟨id, (h.idOf_iff name id).1 hid⟩)

/-- The next id is free. -/
lemma Represents.nameOf_next (h : Represents table registry) :
    table.nameOf.lookup table.next = none := by
  rw [Option.eq_none_iff_forall_ne_some]
  intro name hname
  have hlt := (Registry.exists_name_iff.1 ⟨name, (h.nameOf_iff _ _).1 hname⟩).2
  rw [h.next_eq] at hlt
  exact absurd hlt (Int.lt_irrefl _)

/-- **A new name** goes into both maps under the next id. -/
lemma Represents.insert (h : Represents table registry)
    (hnew : Text.trimmed name ∉ registry.names) :
    Represents
      { next := table.next + 1
        nameOf := table.nameOf.insert table.next (Text.trimmed name)
        idOf := table.idOf.insert (Text.trimmed name) table.next }
      (registry.register name).1 where
  next_eq := by rw [h.next_eq, Registry.size_register_of_notMem hnew, Int.natCast_succ]
  nameOf_iff id other := by
    rw [Registry.name_register_iff hnew, SortedMap.lookup_insert, ← h.next_eq, ← h.nameOf_iff]
    by_cases hid : table.next = id
    · subst hid
      simp [h.nameOf_next]
    · simp [hid, Ne.symm hid]
  idOf_iff other id := by
    rw [Registry.name_register_iff hnew, SortedMap.lookup_insert, ← h.next_eq, ← h.idOf_iff]
    by_cases hother : Text.trimmed name = other
    · subst hother
      simp [h.idOf_eq_none hnew, eq_comm]
    · simp [hother]
  size_eq := by
    have hfree : table.next ∉ table.nameOf.keys := by
      simp [SortedMap.mem_keys_iff, h.nameOf_next]
    rw [SortedMap.size_insert_of_not_mem hfree, h.size_eq, Registry.size_register_of_notMem hnew]

/-- **Registering a name** does to the table what it does to the registry. -/
lemma Represents.register (h : Represents table registry) (name : String) :
    ∃ next, (NameTable.register name).run table = ((registry.register name).2, next) ∧
      Represents next (registry.register name).1 := by
  rw [run_register]
  by_cases hknown : Text.trimmed name ∈ registry.names
  · have hname := registry.name_register name
    rw [Registry.register_of_mem hknown] at hname ⊢
    rw [(h.idOf_iff _ _).2 hname]
    exact ⟨table, rfl, h⟩
  · rw [h.idOf_eq_none hknown, Registry.register_of_notMem hknown, ← h.next_eq]
    exact ⟨_, rfl, h.insert hknown⟩

/-! ### Asking a table -/

lemma run_name (id : FunctionId) (table : NameTable) : (NameTable.name id).run table
    = (match table.nameOf.lookup id with
      | some name => .ok name
      | none => .error ⟨id⟩, table) := by
  simp only [NameTable.name, StateT.run_bind, StateT.run_get, pure_bind]
  cases table.nameOf.lookup id <;> rfl

lemma Represents.run_name (h : Represents table registry) (id : FunctionId) :
    (NameTable.name id).run table = (registry.name id, table) := by
  rw [NameTable.run_name]
  cases hname : table.nameOf.lookup id with
  | some name => rw [(h.nameOf_iff id name).1 hname]
  | none =>
    have hunknown : ¬ ∃ name, registry.name id = .ok name := by
      rintro ⟨name, hknown⟩
      rw [(h.nameOf_iff id name).2 hknown] at hname
      cases hname
    rw [Registry.name_of_unknown (mt Registry.exists_name_iff.2 hunknown)]

lemma Represents.run_lookup (h : Represents table registry) (name : String) :
    (lookup name).run table = (registry.lookup? name, table) := by
  have hlookup : table.idOf.lookup (Text.trimmed name) = registry.lookup? name := by
    refine Option.ext fun id => ?_
    rw [h.idOf_iff, Registry.lookup?_eq_some_iff]
  rw [← hlookup]
  rfl

lemma Represents.run_size (h : Represents table registry) :
    size.run table = (registry.size, table) := by
  rw [← h.size_eq]
  rfl

/-! ## Histories -/

/-- **What a table answers after some names were registered with it.** -/
structure Tells (history : List String) (table : NameTable) : Prop where
  /-- Names are numbered in the order in which their trimmed forms come first. -/
  name_iff : ∀ id name, ((NameTable.name id).run table).1 = .ok name ↔
    ∃ n : ℕ, id = n ∧ (history.map Text.trimmed).eraseDups[n]? = some name
  size_eq : (size.run table).1 = (history.map Text.trimmed).eraseDups.length
  /-- The ids that are known are those below the size. -/
  known_iff : ∀ id, (∃ name, ((NameTable.name id).run table).1 = .ok name) ↔
    0 ≤ id ∧ id < (size.run table).1
  unknown : ∀ id : FunctionId, ¬ (0 ≤ id ∧ id < (size.run table).1) →
    ((NameTable.name id).run table).1 = .error ⟨id⟩
  lookup_iff : ∀ name id, ((lookup name).run table).1 = some id ↔
    ((NameTable.name id).run table).1 = .ok (Text.trimmed name)
  lookup_isSome_iff : ∀ name, ((lookup name).run table).1.isSome ↔
    ∃ met ∈ history, Text.trimmed met = Text.trimmed name
  register_known : ∀ name id, ((lookup name).run table).1 = some id →
    (register name).run table = (id, table)
  register_new : ∀ name, ((lookup name).run table).1 = none →
    ((register name).run table).1 = (size.run table).1
  name_register : ∀ name, ((NameTable.name ((register name).run table).1).run
    ((register name).run table).2).1 = .ok (Text.trimmed name)

/-- **A table is told by its names.** -/
lemma Represents.tells (h : Represents table registry)
    (hnames : registry.names = (history.map Text.trimmed).eraseDups) : Tells history table where
  name_iff id name := by rw [h.run_name, Registry.name_eq_ok_iff, hnames]
  size_eq := by rw [h.run_size, Registry.size, hnames]
  known_iff id := by simp only [h.run_name, h.run_size, Registry.exists_name_iff]
  unknown id hid := by
    rw [h.run_size] at hid
    rw [h.run_name, Registry.name_of_unknown hid]
  lookup_iff name id := by rw [h.run_lookup, h.run_name, Registry.lookup?_eq_some_iff]
  lookup_isSome_iff name := by
    rw [h.run_lookup, Registry.isSome_lookup?_iff, hnames, List.mem_eraseDups, List.mem_map]
  register_known name id hid := by
    have hfound : table.idOf.lookup (Text.trimmed name) = some id := hid
    rw [run_register, hfound]
  register_new name hnone := by
    simp only [h.run_lookup] at hnone
    have hnew : Text.trimmed name ∉ registry.names := fun hmem => by
      have hsome := Registry.isSome_lookup?_iff.2 hmem
      rw [hnone] at hsome
      cases hsome
    obtain ⟨next, hrun, -⟩ := h.register name
    rw [hrun, h.run_size, Registry.register_of_notMem hnew]
  name_register name := by
    obtain ⟨next, hrun, hnext⟩ := h.register name
    rw [hrun, hnext.run_name, registry.name_register]

end NameTable

end BenchCover
