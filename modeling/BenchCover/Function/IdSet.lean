import BenchCover.Function.Registry

/-!
# Sets of functions

Sets of function ids, kept in ascending order, so that two sets with the same members are equal
and every list that is read off a set is in order.
-/

namespace BenchCover

/-- **A finite set of function ids.** -/
structure IdSet where
  toList : List FunctionId
  sorted : toList.Pairwise (· < ·)
  deriving DecidableEq

namespace IdSet

/-- The set without members. -/
def empty : IdSet := ⟨[], .nil⟩

instance : Inhabited IdSet := ⟨empty⟩

instance : Membership FunctionId IdSet := ⟨fun s id => id ∈ s.toList⟩

instance (id : FunctionId) (s : IdSet) : Decidable (id ∈ s) :=
  inferInstanceAs (Decidable (id ∈ s.toList))

def size (s : IdSet) : Nat :=
  s.toList.length

def isEmpty (s : IdSet) : Bool :=
  s.toList.isEmpty

/-- Puts an id into an ascending list, unless it is there. -/
def insertSorted (id : FunctionId) : List FunctionId → List FunctionId
  | [] => [id]
  | other :: rest =>
    if id < other then id :: other :: rest
    else if other < id then other :: insertSorted id rest
    else other :: rest

theorem mem_insertSorted {id other : FunctionId} {ids : List FunctionId} :
    other ∈ insertSorted id ids ↔ other = id ∨ other ∈ ids := by
  fun_induction insertSorted id ids with
  | case1 => simp
  | case2 => simp
  | case3 => simp_all; grind
  | case4 first rest notBefore notAfter =>
    have same : id = first := Int.le_antisymm (Int.not_lt.1 notAfter) (Int.not_lt.1 notBefore)
    simp [same]

theorem pairwise_insertSorted (id : FunctionId) {ids : List FunctionId}
    (sorted : ids.Pairwise (· < ·)) : (insertSorted id ids).Pairwise (· < ·) := by
  fun_induction insertSorted id ids with
  | case1 => simp
  | case2 other rest before =>
    refine List.pairwise_cons.2 ⟨fun x mem => ?_, sorted⟩
    rcases List.mem_cons.1 mem with rfl | mem
    · exact before
    · exact Int.lt_trans before (List.rel_of_pairwise_cons sorted mem)
  | case3 other rest _ after ih =>
    refine List.pairwise_cons.2 ⟨fun x mem => ?_, ih (List.Pairwise.of_cons sorted)⟩
    rcases mem_insertSorted.1 mem with rfl | mem
    · exact after
    · exact List.rel_of_pairwise_cons sorted mem
  | case4 => exact sorted

def insert (s : IdSet) (id : FunctionId) : IdSet where
  toList := insertSorted id s.toList
  sorted := pairwise_insertSorted id s.sorted

def ofList (ids : List FunctionId) : IdSet :=
  ids.foldl insert empty

def union (a b : IdSet) : IdSet :=
  b.toList.foldl insert a

/-- The ids that are in the first set and not in the second. -/
def diff (a b : IdSet) : IdSet where
  toList := a.toList.filter (· ∉ b)
  sorted := a.sorted.filter _

/-! ## Laws -/

theorem mem_def {id : FunctionId} {s : IdSet} : id ∈ s ↔ id ∈ s.toList := Iff.rfl

@[simp] theorem mem_empty {id : FunctionId} : id ∈ empty ↔ False := by
  simp [mem_def, empty]

@[simp] theorem mem_insert {s : IdSet} {id other : FunctionId} :
    other ∈ s.insert id ↔ other = id ∨ other ∈ s :=
  mem_insertSorted

@[simp] theorem mem_diff {a b : IdSet} {id : FunctionId} :
    id ∈ a.diff b ↔ id ∈ a ∧ id ∉ b := by
  simp [mem_def, diff]

theorem mem_foldl_insert {ids : List FunctionId} {s : IdSet} {id : FunctionId} :
    id ∈ ids.foldl insert s ↔ id ∈ s ∨ id ∈ ids := by
  induction ids generalizing s with
  | nil => simp
  | cons head rest ih => rw [List.foldl_cons, ih, mem_insert, List.mem_cons]; grind

@[simp] theorem mem_ofList {ids : List FunctionId} {id : FunctionId} :
    id ∈ ofList ids ↔ id ∈ ids := by
  simp [ofList, mem_foldl_insert]

@[simp] theorem mem_union {a b : IdSet} {id : FunctionId} :
    id ∈ a.union b ↔ id ∈ a ∨ id ∈ b :=
  mem_foldl_insert

end IdSet

end BenchCover
