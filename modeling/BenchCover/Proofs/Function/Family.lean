import BenchCover.Proofs.Function.NameTable

/-!
# Families of tables

Loading several suites copies tables of names, so that there are many of them, each going its own
way from some point on.  Here a family starts with one empty table and grows by copying a member.

**Operations.**  `Family.perform` is one operation on one member: the member runs the request, what
it leaves behind takes its place, and a copy that it answers with is the new last member.  A request
that does not register a name leaves the member as it is (`Request.run_of_ne_register`).

**Histories.**  What a member is depends only on the names that were registered with it, and before
it with the members that it was copied from; these are `Family.histories`, which are told by the
operations alone.  Every member stays in step with its history (`forall₂_tracks`).

**Later on.**  The later self of a member knows what it knew, and is the same if no name was
registered with it (`exists_later`).

`Family.serves` collects what this means for one member, with its past and its future.
-/

namespace BenchCover

namespace Family

inductive Request where
  | register (name : String)
  | name (id : FunctionId)
  | lookup (name : String)
  | size
  | copy
  deriving DecidableEq, Repr

inductive Answer where
  | registered (id : FunctionId)
  | named (found : Except UnknownFunction String)
  | found (id? : Option FunctionId)
  | sized (size : Nat)
  | copied (table : NameTable)

/-- The table that is made for an answer. -/
def Answer.copy? : Answer → Option NameTable
  | copied table => some table
  | registered _ | named _ | found _ | sized _ => none

/-- **A request to one table.** -/
def Request.run : Request → StateM NameTable Answer
  | register text => return .registered (← NameTable.register text)
  | name id => return .named (← NameTable.name id)
  | lookup text => return .found (← NameTable.lookup text)
  | size => return .sized (← NameTable.size)
  | copy => return .copied (← NameTable.copy)

/-- An operation on the member at a place of the family. -/
structure Operation where
  slot : Nat
  request : Request
  deriving DecidableEq, Repr

/-- **One operation** on a family.  There is no answer if there is no member at the place. -/
def perform (operation : Operation) : StateM (List NameTable) (Option Answer) := do
  let some table := (← get)[operation.slot]? | return none
  let (answer, table) := operation.request.run.run table
  modify fun family => family.set operation.slot table ++ answer.copy?.toList
  return some answer

/-- **The tables after some operations.** -/
def tables (operations : List Operation) : List NameTable :=
  ((operations.mapM perform).run [.empty]).2

/-! ## Operations -/

section Perform

variable {family : List NameTable} {table : NameTable} {slot : ℕ} {request : Request}

/-- Only registering a name changes a table. -/
lemma Request.run_of_ne_register (hread : ∀ name, request ≠ .register name) (table : NameTable) :
    (request.run.run table).2 = table := by
  cases request with
  | register name => exact absurd rfl (hread name)
  | name id =>
    rw [run, StateT.run_bind, NameTable.run_name]
    rfl
  | lookup _ | size | copy => rfl

lemma run_perform (hmember : family[slot]? = some table) (request : Request) :
    (perform ⟨slot, request⟩).run family
      = (some (request.run.run table).1,
        family.set slot (request.run.run table).2 ++ (request.run.run table).1.copy?.toList) := by
  simp only [perform, StateT.run_bind, StateT.run_get, pure_bind, hmember]
  rfl

lemma run_perform_of_none (hnone : family[slot]? = none) (request : Request) :
    (perform ⟨slot, request⟩).run family = (none, family) := by
  simp only [perform, StateT.run_bind, StateT.run_get, pure_bind, hnone]
  rfl

lemma set_of_getElem? {α : Type} {l : List α} {a : α} {n : ℕ} (h : l[n]? = some a) :
    l.set n a = l := by
  obtain ⟨hlt, rfl⟩ := List.getElem?_eq_some_iff.1 h
  exact List.set_getElem_self hlt

lemma perform_register (hmember : family[slot]? = some table) (name : String) :
    ((perform ⟨slot, .register name⟩).run family).2
      = family.set slot ((NameTable.register name).run table).2 := by
  rw [run_perform hmember]
  exact List.append_nil _

/-- A copy is the same table at a new place. -/
lemma perform_copy (hmember : family[slot]? = some table) :
    ((perform ⟨slot, .copy⟩).run family).2 = family ++ [table] := by
  rw [run_perform hmember, Request.run_of_ne_register (by simp), set_of_getElem? hmember]
  rfl

/-- Other requests leave a family as it is. -/
lemma perform_read (hmember : family[slot]? = some table) (hread : ∀ name, request ≠ .register name)
    (hcopy : request ≠ .copy) : ((perform ⟨slot, request⟩).run family).2 = family := by
  rw [run_perform hmember, Request.run_of_ne_register hread, set_of_getElem? hmember]
  cases request with
  | register name => exact absurd rfl (hread name)
  | copy => exact absurd rfl hcopy
  | name _ | lookup _ | size => exact List.append_nil _

/-- **A member is changed by registering a name with it, and by nothing else.** -/
lemma getElem?_perform (hmember : family[slot]? = some table) (operation : Operation) :
    ((perform operation).run family).2[slot]? = some table ∨
      ∃ name, operation = ⟨slot, .register name⟩ ∧ ((perform operation).run family).2[slot]?
        = some ((NameTable.register name).run table).2 := by
  have hlt : slot < family.length := (List.getElem?_eq_some_iff.1 hmember).1
  obtain ⟨place, request⟩ := operation
  cases hplace : family[place]? with
  | none =>
    rw [run_perform_of_none hplace]
    exact Or.inl hmember
  | some other =>
    rw [run_perform hplace, List.getElem?_append_left (by rwa [List.length_set])]
    by_cases hsame : place = slot
    · subst hsame
      obtain rfl := Option.some.inj (hmember.symm.trans hplace)
      rw [List.getElem?_set_self hlt]
      by_cases hregister : ∃ name, request = .register name
      · obtain ⟨name, rfl⟩ := hregister
        exact Or.inr ⟨name, rfl, rfl⟩
      · rw [Request.run_of_ne_register (not_exists.1 hregister)]
        exact Or.inl rfl
    · rw [List.getElem?_set_ne hsame]
      exact Or.inl hmember

lemma tables_concat (operations : List Operation) (operation : Operation) :
    tables (operations ++ [operation]) = ((perform operation).run (tables operations)).2 := by
  simp only [tables, List.mapM_append, List.mapM_cons, List.mapM_nil, StateT.run_bind]
  rfl

end Perform

/-! ## Histories -/

/-- What an operation adds to the names that were met. -/
def remember (histories : List (List String)) (operation : Operation) : List (List String) :=
  match operation.request with
  | .register name => histories.modify operation.slot (· ++ [name])
  | .copy => histories ++ histories[operation.slot]?.toList
  | .name _ | .lookup _ | .size => histories

/-- **The names that each of the tables met**, or that were met by a table before it was copied to
make this one. -/
def histories (operations : List Operation) : List (List String) :=
  operations.foldl remember [[]]

/-- A table that holds the names of a history. -/
def Tracks (history : List String) (table : NameTable) : Prop :=
  ∃ registry, table.Represents registry ∧ registry.names = (history.map Text.trimmed).eraseDups

section Tracks

variable {history : List String} {table : NameTable} {family : List NameTable}
  {remembered : List (List String)}

/-- One name more. -/
lemma Tracks.register (h : Tracks history table) (name : String) :
    Tracks (history ++ [name]) ((NameTable.register name).run table).2 := by
  obtain ⟨registry, hregistry, hnames⟩ := h
  obtain ⟨next, hrun, hnext⟩ := hregistry.register name
  refine ⟨(registry.register name).1, by rwa [hrun], ?_⟩
  rw [Registry.names_register, hnames, List.map_append, List.map_singleton, eraseDups_concat]

lemma forall₂_set {σ τ : Type} {R : σ → τ → Prop} {l : List σ} {l' : List τ} {a : σ} {b : τ}
    (h : List.Forall₂ R l l') (hab : R a b) (n : ℕ) : List.Forall₂ R (l.set n a) (l'.set n b) := by
  induction h generalizing n with
  | nil => exact .nil
  | cons hfirst hrest ih =>
    cases n with
    | zero => exact .cons hab hrest
    | succ n => exact .cons hfirst (ih n)

lemma forall₂_getElem? {σ τ : Type} {R : σ → τ → Prop} {l : List σ} {l' : List τ}
    (h : List.Forall₂ R l l') (n : ℕ) : Option.Rel R l[n]? l'[n]? := by
  induction h generalizing n with
  | nil => exact .none
  | cons hfirst _ ih =>
    cases n with
    | zero => exact .some hfirst
    | succ n => exact ih n

/-- **One operation** keeps every member in step with its history. -/
lemma forall₂_tracks_perform (h : List.Forall₂ Tracks remembered family) (operation : Operation) :
    List.Forall₂ Tracks (remember remembered operation) ((perform operation).run family).2 := by
  obtain ⟨slot, request⟩ := operation
  have hmember := forall₂_getElem? h slot
  generalize hhistory : remembered[slot]? = history?, hfamily : family[slot]? = table? at hmember
  cases hmember with
  | none =>
    rw [run_perform_of_none hfamily]
    cases request <;> simpa [remember, List.modify_eq_set_getElem?, hhistory] using h
  | @some history table htracks =>
    cases request with
    | register name =>
      have hremember : remember remembered ⟨slot, .register name⟩
          = remembered.set slot (history ++ [name]) := by
        simp [remember, List.modify_eq_set_getElem?, hhistory]
      rw [perform_register hfamily, hremember]
      exact forall₂_set h (htracks.register name) slot
    | copy =>
      rw [perform_copy hfamily, remember, hhistory]
      exact List.rel_append h (.cons htracks .nil)
    | name _ | lookup _ | size =>
      rw [perform_read hfamily (by simp) (by simp)]
      exact h

/-- **Every table tracks its own history.** -/
theorem forall₂_tracks (operations : List Operation) :
    List.Forall₂ Tracks (histories operations) (tables operations) := by
  induction operations using List.reverseRecOn with
  | nil => exact .cons ⟨.empty, NameTable.represents_empty, rfl⟩ .nil
  | append_singleton operations operation ih =>
    rw [tables_concat, histories, List.foldl_concat, ← histories]
    exact forall₂_tracks_perform ih operation

end Tracks

/-! ## Later on -/

variable {table : NameTable} {registry : Registry} {slot : ℕ} {earlier : List Operation}

/-- **The later self of a table** knows what it knew, and is the same if no name was registered with
it. -/
theorem exists_later (htable : (tables earlier)[slot]? = some table)
    (hregistry : table.Represents registry) (later : List Operation) :
    ∃ table' registry', (tables (earlier ++ later))[slot]? = some table' ∧
      table'.Represents registry' ∧ registry.Extends registry' ∧
      ((∀ name, ⟨slot, .register name⟩ ∉ later) → table' = table) := by
  induction later using List.reverseRecOn with
  | nil =>
    rw [List.append_nil]
    exact ⟨table, registry, htable, hregistry, .refl registry, fun _ => rfl⟩
  | append_singleton later operation ih =>
    obtain ⟨table', registry', htable', hregistry', hextends, hsame⟩ := ih
    rw [← List.append_assoc, tables_concat]
    rcases getElem?_perform htable' operation with hkept | ⟨name, rfl, hmet⟩
    · refine ⟨table', registry', hkept, hregistry', hextends, ?_⟩
      intro hnone
      refine hsame fun name hname => ?_
      exact hnone name (List.mem_append_left _ hname)
    · obtain ⟨next, hrun, hnext⟩ := hregistry'.register name
      rw [hrun] at hmet
      refine ⟨next, _, hmet, hnext, hextends.trans (registry'.extends_register name), ?_⟩
      intro hnone
      exact absurd (List.mem_append_right _ (List.mem_singleton_self _)) (hnone name)

/-- **A table of a family, with its past and its future.** -/
structure Serves (earlier : List Operation) (slot : ℕ) (table : NameTable) : Prop where
  /-- The two maps and the counter are in step. -/
  inStep : table.InStep
  /-- It tells the names that it met. -/
  tells : ∃ history, (histories earlier)[slot]? = some history ∧ table.Tells history
  /-- Its answers are those of the family at its place. -/
  answers : ∀ request, ((perform ⟨slot, request⟩).run (tables earlier)).1
    = some (request.run.run table).1
  /-- Asking it changes nothing. -/
  reads : ∀ request : Request, (∀ name, request ≠ .register name) →
    (request.run.run table).2 = table
  /-- Whatever happens later, it keeps its names under their ids. -/
  keeps : ∀ later, ∃ table', (tables (earlier ++ later))[slot]? = some table' ∧
    ∀ id name, ((NameTable.name id).run table).1 = .ok name →
      ((NameTable.name id).run table').1 = .ok name
  /-- Only registering names with it changes it; what happens to other tables does not. -/
  alone : ∀ later, (∀ name, ⟨slot, .register name⟩ ∉ later) →
    (tables (earlier ++ later))[slot]? = some table
  /-- An id that it gives stands for the name from then on, and for no other. -/
  gives : ∀ first later, ∃ table',
    (tables (earlier ++ ⟨slot, .register first⟩ :: later))[slot]? = some table' ∧
      ((NameTable.name ((NameTable.register first).run table).1).run table').1
        = .ok (Text.trimmed first) ∧
      ∀ second, ((NameTable.register second).run table').1
        = ((NameTable.register first).run table).1 ↔ Text.trimmed second = Text.trimmed first
  /-- A copy is the same table at a new place. -/
  copied : tables (earlier ++ [⟨slot, .copy⟩]) = tables earlier ++ [table]
  /-- The original and the copy may give one id to two names, and each keeps its own. -/
  parted : ∀ first second, ((NameTable.lookup first).run table).1 = none →
    ((NameTable.lookup second).run table).1 = none → ∃ original copy,
      ((NameTable.register first).run table).1 = (NameTable.size.run table).1 ∧
      ((NameTable.register second).run table).1 = (NameTable.size.run table).1 ∧
      tables (earlier ++ [⟨slot, .copy⟩, ⟨slot, .register first⟩,
          ⟨(tables earlier).length, .register second⟩])
        = (tables earlier).set slot original ++ [copy] ∧
      ((NameTable.name (NameTable.size.run table).1).run original).1 = .ok (Text.trimmed first) ∧
      ((NameTable.name (NameTable.size.run table).1).run copy).1 = .ok (Text.trimmed second)

lemma gives_of_slot (htable : (tables earlier)[slot]? = some table)
    (hregistry : table.Represents registry) (first : String) (later : List Operation) :
    ∃ table', (tables (earlier ++ ⟨slot, .register first⟩ :: later))[slot]? = some table' ∧
      ((NameTable.name ((NameTable.register first).run table).1).run table').1
        = .ok (Text.trimmed first) ∧
      ∀ second, ((NameTable.register second).run table').1
        = ((NameTable.register first).run table).1 ↔ Text.trimmed second = Text.trimmed first := by
  obtain ⟨next, hrun, hnext⟩ := hregistry.register first
  have hmet : (tables (earlier ++ [⟨slot, .register first⟩]))[slot]? = some next := by
    have hlt : slot < (tables earlier).length := (List.getElem?_eq_some_iff.1 htable).1
    rw [tables_concat, perform_register htable, hrun, List.getElem?_set_self hlt]
  obtain ⟨table', registry', htable', hregistry', hextends, -⟩ := exists_later hmet hnext later
  rw [List.append_assoc, List.singleton_append] at htable'
  refine ⟨table', htable', ?_, fun second => ?_⟩
  · rw [hrun, hregistry'.run_name]
    exact hextends.keeps_name (registry.name_register first)
  · obtain ⟨next', hrun', -⟩ := hregistry'.register second
    rw [hrun, hrun']
    exact Registry.register_eq_iff hextends

/-- Two names that are new to a table, one for the table and one for its copy. -/
lemma parted_of_slot (htable : (tables earlier)[slot]? = some table) (first second : String) :
    tables (earlier ++ [⟨slot, .copy⟩, ⟨slot, .register first⟩,
        ⟨(tables earlier).length, .register second⟩])
      = (tables earlier).set slot ((NameTable.register first).run table).2
        ++ [((NameTable.register second).run table).2] := by
  have hlt : slot < (tables earlier).length := (List.getElem?_eq_some_iff.1 htable).1
  have horiginal : (tables earlier ++ [table])[slot]? = some table := by
    rw [List.getElem?_append_left hlt, htable]
  have hcopy : ((tables earlier).set slot ((NameTable.register first).run table).2
      ++ [table])[(tables earlier).length]? = some table := by
    simp
  calc tables (earlier ++ [⟨slot, .copy⟩, ⟨slot, .register first⟩,
        ⟨(tables earlier).length, .register second⟩])
      = tables (earlier ++ [⟨slot, .copy⟩] ++ [⟨slot, .register first⟩]
          ++ [⟨(tables earlier).length, .register second⟩]) := by simp
    _ = ((tables earlier).set slot ((NameTable.register first).run table).2 ++ [table]).set
          (tables earlier).length ((NameTable.register second).run table).2 := by
        rw [tables_concat, tables_concat, tables_concat, perform_copy htable,
          perform_register horiginal, List.set_append_left slot _ hlt, perform_register hcopy]
    _ = _ := by simp

/-- **Every table of a family**, at any time, is in step and tells the names that it met, and goes
its own way: ids that it gave stay what they are, and no operation on another table changes it. -/
theorem serves (earlier : List Operation) {slot : ℕ} {table : NameTable}
    (htable : (tables earlier)[slot]? = some table) : Serves earlier slot table := by
  have hrel := forall₂_getElem? (forall₂_tracks earlier) slot
  rw [htable] at hrel
  generalize hhistory : (histories earlier)[slot]? = history? at hrel
  cases hrel with
  | @some history _ htracks =>
    obtain ⟨registry, hregistry, hnames⟩ := htracks
    have htells := hregistry.tells hnames
    exact {
      inStep := hregistry.inStep
      tells := ⟨history, hhistory, htells⟩
      answers := fun request => by rw [run_perform htable]
      reads := fun request hread => Request.run_of_ne_register hread table
      keeps := fun later => by
        obtain ⟨table', registry', htable', hregistry', hextends, -⟩ :=
          exists_later htable hregistry later
        refine ⟨table', htable', fun id name hname => ?_⟩
        rw [hregistry.run_name] at hname
        rw [hregistry'.run_name]
        exact hextends.keeps_name hname
      alone := fun later hnone => by
        obtain ⟨table', -, htable', -, -, hsame⟩ := exists_later htable hregistry later
        rwa [hsame hnone] at htable'
      gives := gives_of_slot htable hregistry
      copied := by rw [tables_concat, perform_copy htable]
      parted := fun first second hfirst hsecond =>
        ⟨_, _, htells.register_new first hfirst, htells.register_new second hsecond,
          parted_of_slot htable first second,
          htells.register_new first hfirst ▸ htells.name_register first,
          htells.register_new second hsecond ▸ htells.name_register second⟩ }

/-- A table and its copy after each of them met a name of its own: the names have the same id. -/
def partedOperations : List Operation :=
  [⟨0, .register "a"⟩, ⟨0, .copy⟩, ⟨0, .register " b"⟩, ⟨1, .register "c\n"⟩]

/-- A table and its copy that have parted both serve on. -/
theorem serves_parted : ∃ original copy,
    (tables partedOperations)[0]? = some original ∧
      (tables partedOperations)[1]? = some copy ∧
      ((NameTable.name 1).run original).1 = .ok "b" ∧ ((NameTable.name 1).run copy).1 = .ok "c" ∧
      Serves partedOperations 0 original ∧ Serves partedOperations 1 copy :=
  ⟨_, _, rfl, rfl, rfl, rfl, serves partedOperations rfl, serves partedOperations rfl⟩

end Family

end BenchCover
